import PacketPro.EalArguments
import PacketPro.DpdkJava.ApplicationStarter

/-! # `ApplicationStarter.java`: The Start-Up Calls

    Each call of the start-up clears the flag `working` when its native call
    reports a failure, and `startAll` ends the process if the flag is cleared.
    Nothing ever sets the flag again. One call does not look at the result of
    its native call: `start_native_stats` registers its thread regardless.

    * `StartUpCall.fails`: the native call under a start-up call failed, or
      the call itself refused its arguments.
    * `StartUpCall.run_working`: after any sequence of calls the flag is set exactly when
      no call but `start_native_stats` has failed.
-/

namespace PacketPro.DpdkJava

/-! ## Section 1: Definitions -/

/-- `rte_mempool_create` returns a pointer; `none` is the null pointer. -/
def nat_create_mempool (rte_mempool_create : JString → JInt → JInt → Option Addr) (name : JString)
    (num_el cache_size : JInt) : JInt :=
  if rte_mempool_create name num_el cache_size = none then ERROR else SUCCESS

/-- `rte_eth_dev_count` returns a byte; the number itself is the result. -/
def nat_check_ports (rte_eth_dev_count : BitVec 8) : JInt :=
  let num_ports := rte_eth_dev_count.setWidth 32
  if num_ports = 0 then ERROR else num_ports

def nat_configure_dev (rte_eth_dev_configure : JInt → JInt → JInt → Int)
    (port_id rx_num tx_num : JInt) : JInt :=
  nativeResult (rte_eth_dev_configure port_id rx_num tx_num)

def nat_configure_rx_queue (rte_eth_rx_queue_setup : JInt → JInt → Int) (port_id rx_id : JInt) :
    JInt :=
  nativeResult (rte_eth_rx_queue_setup port_id rx_id)

def nat_configure_tx_queue (rte_eth_tx_queue_setup : JInt → JInt → Int) (port_id tx_id : JInt) :
    JInt :=
  nativeResult (rte_eth_tx_queue_setup port_id tx_id)

def nat_dev_start (rte_eth_dev_start : JInt → Int) (port_id : JInt) : JInt :=
  nativeResult (rte_eth_dev_start port_id)

namespace ApplicationStarter

variable {ρ : Type}

/-- What the methods below do with the result of their native call. -/
def record (st : ApplicationStarter ρ) (result : JInt) : ApplicationStarter ρ :=
  if result.toInt < 0 then { st with working := false } else st

/-! The argument `native` is the native function that the method calls, or its
    result where there is nothing to pass. -/

def dpdk_init_eal (native : JInt) (st : ApplicationStarter ρ) : ApplicationStarter ρ :=
  st.record native

def dpdk_create_mempool (native : JString → JInt → JInt → JInt) (name : JString)
    (num_el cache_size : JInt) (st : ApplicationStarter ρ) : ApplicationStarter ρ :=
  st.record (native name num_el cache_size)

def dpdk_check_ports (native : JInt) (st : ApplicationStarter ρ) : ApplicationStarter ρ :=
  st.record native

/-- The number of receive queues is passed twice. -/
def dpdk_configure_dev (native : JInt → JInt → JInt → JInt) (port_id rx_num _tx_num : JInt)
    (st : ApplicationStarter ρ) : ApplicationStarter ρ :=
  st.record (native port_id rx_num rx_num)

def dpdk_configure_rx_queue (native : JInt → JInt → JInt) (port_id rx_id : JInt)
    (st : ApplicationStarter ρ) : ApplicationStarter ρ :=
  st.record (native port_id rx_id)

def dpdk_configure_tx_queue (native : JInt → JInt → JInt) (port_id tx_id : JInt)
    (st : ApplicationStarter ρ) : ApplicationStarter ρ :=
  st.record (native port_id tx_id)

def dpdk_dev_start (native : JInt → JInt) (port_id : JInt) (st : ApplicationStarter ρ) :
    ApplicationStarter ρ :=
  st.record (native port_id)

end ApplicationStarter

/-- A start-up call, with what the DPDK function under it will return. The
    outcomes of the affinity calls are those of the platform. -/
inductive StartUpCall (ρ : Type) where
  | createAffinityThreads (threads : List ρ)
  | start_native_stats
  | dpdk_init_eal (rte_eal_init : Int)
  | dpdk_create_mempool (name : JString) (num_el cache_size : JInt)
      (rte_mempool_create : JString → JInt → JInt → Option Addr)
  | dpdk_check_ports (rte_eth_dev_count : BitVec 8)
  | dpdk_configure_dev (port_id rx_num tx_num : JInt)
      (rte_eth_dev_configure : JInt → JInt → JInt → Int)
  | dpdk_configure_rx_queue (port_id rx_id : JInt) (rte_eth_rx_queue_setup : JInt → JInt → Int)
  | dpdk_configure_tx_queue (port_id tx_id : JInt) (rte_eth_tx_queue_setup : JInt → JInt → Int)
  | dpdk_dev_start (port_id : JInt) (rte_eth_dev_start : JInt → Int)

/-- The starter and the platform it runs on. -/
abbrev Starting (ρ : Type) : Type := ApplicationStarter ρ × Platform

namespace StartUpCall

variable {ρ : Type}

def step (c : StartUpCall ρ) (s : Starting ρ) : Starting ρ :=
  match c with
  | .createAffinityThreads threads => s.1.createAffinityThreads threads s.2
  | .start_native_stats => s.1.start_native_stats s.2
  | .dpdk_init_eal ret => (s.1.dpdk_init_eal (nativeResult ret), s.2)
  | .dpdk_create_mempool name num_el cache_size rte =>
    (s.1.dpdk_create_mempool (nat_create_mempool rte) name num_el cache_size, s.2)
  | .dpdk_check_ports count => (s.1.dpdk_check_ports (nat_check_ports count), s.2)
  | .dpdk_configure_dev port_id rx_num tx_num rte =>
    (s.1.dpdk_configure_dev (nat_configure_dev rte) port_id rx_num tx_num, s.2)
  | .dpdk_configure_rx_queue port_id rx_id rte =>
    (s.1.dpdk_configure_rx_queue (nat_configure_rx_queue rte) port_id rx_id, s.2)
  | .dpdk_configure_tx_queue port_id tx_id rte =>
    (s.1.dpdk_configure_tx_queue (nat_configure_tx_queue rte) port_id tx_id, s.2)
  | .dpdk_dev_start port_id rte => (s.1.dpdk_dev_start (nat_dev_start rte) port_id, s.2)

/-- The calls one after the other. -/
def run : List (StartUpCall ρ) → Starting ρ → Starting ρ
  | [], s => s
  | c :: calls, s => run calls (c.step s)

/-- The results of the affinity calls for one thread after the other. -/
def affinityResults : List ρ → JInt → Platform → List JInt
  | [], _, _ => []
  | _ :: threads, core, m =>
    let (s, m) := nat_set_thread_affinity .main core m
    s :: affinityResults threads (core + 1) m

/-- The call is rejected for its threads, an affinity result is not 1, or the
    result of the native call is negative. -/
def fails (c : StartUpCall ρ) (s : Starting ρ) : Bool :=
  match c with
  | .createAffinityThreads threads =>
    decide ((threads.length : Int) > s.1.num_available_cores.toInt) ||
      (affinityResults threads 1 s.2).any (· ≠ 1)
  -- the call itself does not look at this result
  | .start_native_stats => (nat_set_thread_affinity .main 0 s.2).1 ≠ 1
  | .dpdk_init_eal ret => (nativeResult ret).toInt < 0
  | .dpdk_create_mempool name num_el cache_size rte =>
    (nat_create_mempool rte name num_el cache_size).toInt < 0
  | .dpdk_check_ports count => (nat_check_ports count).toInt < 0
  | .dpdk_configure_dev port_id rx_num _ rte =>
    (nat_configure_dev rte port_id rx_num rx_num).toInt < 0
  | .dpdk_configure_rx_queue port_id rx_id rte =>
    (nat_configure_rx_queue rte port_id rx_id).toInt < 0
  | .dpdk_configure_tx_queue port_id tx_id rte =>
    (nat_configure_tx_queue rte port_id tx_id).toInt < 0
  | .dpdk_dev_start port_id rte => (nat_dev_start rte port_id).toInt < 0

/-- The calls of a run that fail, in order. -/
def failures : List (StartUpCall ρ) → Starting ρ → List (StartUpCall ρ)
  | [], _ => []
  | c :: calls, s => (if c.fails s then [c] else []) ++ failures calls (c.step s)

/-- The call whose failure the starter does not look at. -/
def unchecked : StartUpCall ρ → Bool
  | .start_native_stats => true
  | _ => false

end StartUpCall

/-! ## Section 2: The flag -/

namespace ApplicationStarter

variable {ρ : Type}

theorem record_working (st : ApplicationStarter ρ) (result : JInt) :
    (st.record result).working = (st.working && !decide (result.toInt < 0)) := by
  unfold record
  by_cases hfail : result.toInt < 0
  · rw [if_pos hfail]
    simp [hfail]
  · rw [if_neg hfail]
    simp [hfail]

theorem register_working (st : ApplicationStarter ρ) (af : AffinityThread ρ) :
    (st.register af).working = (st.working && af.worked) := by
  unfold register
  cases af.worked with
  | true => exact (Bool.and_true _).symm
  | false => exact (Bool.and_false _).symm

/-- The loop remembers every affinity call that failed. -/
theorem createLoop_working (threads : List ρ) (core : JInt) (st : ApplicationStarter ρ)
    (m : Platform) : (createLoop threads core st m).1.working =
      (st.working && !(StartUpCall.affinityResults threads core m).any (· ≠ 1)) := by
  induction threads generalizing core st m with
  | nil => exact (Bool.and_true _).symm
  | cons ct threads ih =>
    have hworked :
        (AffinityThread.new .main (.coreThread ct) core st.num_available_cores m).1.worked =
          !decide ((nat_set_thread_affinity .main core m).1 ≠ 1) := by
      rw [decide_not, Bool.not_not]
      rfl
    simp only [createLoop, ih, register_working, hworked, StartUpCall.affinityResults,
      List.any_cons, Bool.not_or, Bool.and_assoc]
    rfl

end ApplicationStarter

namespace StartUpCall

variable {ρ : Type}

/-- **Step lemma**: a call clears the flag exactly when it fails, unless its
    result is not looked at. -/
theorem step_working (c : StartUpCall ρ) (s : Starting ρ) :
    (c.step s).1.working = (s.1.working && (c.unchecked || !c.fails s)) := by
  cases c with
  | createAffinityThreads threads =>
    simp only [step, fails, unchecked, Bool.false_or, ApplicationStarter.createAffinityThreads]
    by_cases hrejected : (threads.length : Int) > s.1.num_available_cores.toInt
    · simp [hrejected]
    · rw [if_neg hrejected, ApplicationStarter.createLoop_working]
      simp [hrejected]
  | start_native_stats => exact (Bool.and_true _).symm
  | _ => exact ApplicationStarter.record_working _ _

/-- **Run lemma**: the flag is still set exactly when every failure so far was
    one that is not looked at. -/
theorem run_working (calls : List (StartUpCall ρ)) (s : Starting ρ) :
    (run calls s).1.working = (s.1.working && (failures calls s).all unchecked) := by
  induction calls generalizing s with
  | nil => exact (Bool.and_true _).symm
  | cons c calls ih =>
    rw [run, ih, step_working, failures, List.all_append, Bool.and_assoc]
    cases hfails : c.fails s with
    | true => simp
    | false => simp

end StartUpCall

/-! ## Section 3: Fail-stop -/

/-- `startAll` starts every registered thread if nothing has failed, and ends
    the process otherwise. -/
def FailStop {ρ : Type} (num_available_cores : JInt) (calls : List (StartUpCall ρ))
    (m : Platform) : Prop :=
  let start : Starting ρ := (ApplicationStarter.new num_available_cores, m)
  let s := StartUpCall.run calls start
  (StartUpCall.failures calls start = [] → ∃ m', s.1.startAll s.2 = some m' ∧
    ∀ k < s.1.aff_threads.length, .affinity k ∈ m'.running) ∧
  (StartUpCall.failures calls start ≠ [] → s.1.startAll s.2 = none)

namespace StartUpCall

variable {ρ : Type}

theorem eq_start_native_stats {c : StartUpCall ρ} (h : c.unchecked = true) :
    c = .start_native_stats := by
  cases c with
  | start_native_stats => rfl
  | _ => exact absurd h nofun

/-- After any calls on a new starter, `startAll` ends the process exactly when
    a failure was looked at. -/
theorem startAll_run (num_available_cores : JInt) (calls : List (StartUpCall ρ)) (m : Platform) :
    let start : Starting ρ := (ApplicationStarter.new num_available_cores, m)
    let s := run calls start
    ((failures calls start).all unchecked = true → ∃ m', s.1.startAll s.2 = some m' ∧
      ∀ k < s.1.aff_threads.length, .affinity k ∈ m'.running) ∧
    ((failures calls start).all unchecked = false → s.1.startAll s.2 = none) := by
  intro start s
  have hworking : s.1.working = (failures calls start).all unchecked := by
    have h := run_working calls start
    rw [show start.1.working = true from rfl, Bool.true_and] at h
    exact h
  constructor
  · intro hall
    obtain ⟨m', hstart, hrunning⟩ :=
      ApplicationStarter.startAll_spec s.1 s.2 (hworking.trans hall)
    exact ⟨m', hstart, fun k hk => (hrunning k hk).1⟩
  · intro hsome
    have hnot : ¬ s.1.working = true := by
      rw [hworking, hsome]
      exact Bool.false_ne_true
    exact if_pos hnot

end StartUpCall

/-- **Main**: for every sequence of calls with every outcome, the start-up is
    fail-stop exactly when no `start_native_stats` fails, or else something
    that is looked at fails as well. -/
theorem failStop_iff {ρ : Type} (num_available_cores : JInt) (calls : List (StartUpCall ρ))
    (m : Platform) :
    FailStop num_available_cores calls m ↔
      (.start_native_stats ∈
          StartUpCall.failures calls (ApplicationStarter.new num_available_cores, m) →
        ∃ c ∈ StartUpCall.failures calls (ApplicationStarter.new num_available_cores, m),
          c.unchecked = false) := by
  obtain ⟨hstarts, hends⟩ := StartUpCall.startAll_run num_available_cores calls m
  simp only [FailStop]
  generalize StartUpCall.failures calls (ApplicationStarter.new num_available_cores, m) = failed
    at hstarts hends ⊢
  constructor
  · rintro ⟨-, hstop⟩ hmem
    by_contra hnone
    push Not at hnone
    have hall : failed.all StartUpCall.unchecked = true := by
      rw [List.all_eq_true]
      intro c hc
      exact Bool.eq_true_of_not_eq_false (hnone c hc)
    -- the threads would be started in spite of the failure
    obtain ⟨m', hstart, -⟩ := hstarts hall
    rw [hstop (List.ne_nil_of_mem hmem)] at hstart
    exact absurd hstart nofun
  · intro hcond
    constructor
    · rintro rfl
      exact hstarts rfl
    · intro hne
      apply hends
      by_contra hall
      rw [Bool.not_eq_false, List.all_eq_true] at hall
      obtain ⟨c, hc⟩ := List.exists_mem_of_ne_nil failed hne
      rw [StartUpCall.eq_start_native_stats (hall c hc)] at hc
      obtain ⟨c', hc', hchecked⟩ := hcond hc
      exact absurd (hall c' hc') (by simp [hchecked])

/-- A platform that refuses every mask. -/
def noAffinity : Platform where
  setResult := fun _ _ => 22
  getResult := fun _ => 0
  calls := 0
  mask := fun _ => {0, 1, 2, 3}
  running := []

/-- The affinity call of `start_native_stats` fails, and the thread is started
    all the same. -/
theorem failed_native_stats_is_started :
    StartUpCall.failures ([.start_native_stats] : List (StartUpCall Unit))
        (ApplicationStarter.new 4, noAffinity) = [.start_native_stats] ∧
    (∃ m', ApplicationStarter.startAll
        (StartUpCall.run ([.start_native_stats] : List (StartUpCall Unit))
          (ApplicationStarter.new 4, noAffinity)).1
        (StartUpCall.run ([.start_native_stats] : List (StartUpCall Unit))
          (ApplicationStarter.new 4, noAffinity)).2 = some m' ∧ .affinity 0 ∈ m'.running) ∧
    ¬ FailStop 4 ([.start_native_stats] : List (StartUpCall Unit)) noAffinity := by
  have hfailed : StartUpCall.failures ([.start_native_stats] : List (StartUpCall Unit))
      (ApplicationStarter.new 4, noAffinity) = [.start_native_stats] := rfl
  obtain ⟨hstarts, -⟩ := StartUpCall.startAll_run 4
    ([.start_native_stats] : List (StartUpCall Unit)) noAffinity
  obtain ⟨m', hstart, hrunning⟩ := hstarts rfl
  refine ⟨hfailed, ⟨m', hstart, hrunning 0 Nat.one_pos⟩, ?_⟩
  rintro ⟨-, hstop⟩
  rw [hstop (by rw [hfailed]; exact List.cons_ne_nil _ _)] at hstart
  exact absurd hstart nofun

end PacketPro.DpdkJava
