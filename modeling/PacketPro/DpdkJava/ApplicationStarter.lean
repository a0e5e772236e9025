import Mathlib.Data.Finset.Insert
import Mathlib.Logic.Function.Basic
import PacketPro.World

/-! # `ApplicationStarter.java` and `AffinityThread.java`: Pinning Threads

    An `AffinityThread` pins a thread to a core. The native call is made in
    its constructor and acts on `pthread_self()`: on the thread that builds
    the object, not on the one that the object will start. A started thread
    has the mask that its creator has at that moment.

    * `Follows`: the mask of the main thread is the core of the last
      `AffinityThread` that was built.
    * `pinned_iff`: after `startAll` each thread is on its own core exactly
      when there is at most one of them.
-/

namespace PacketPro.DpdkJava

/-! ## Section 1: The platform -/

/-- The threads of the process. -/
inductive ThreadId where
  | main
  | stats
  /-- The thread of the `k`-th `AffinityThread` of the starter. -/
  | affinity (k : Nat)
  deriving DecidableEq, Repr

/-- A `cpu_set_t`. -/
abbrev CpuSet : Type := Finset Nat

def CPU_SETSIZE : Nat := 1024

/-- A number that the set has no bit for is ignored. -/
def CPU_SET (core : JInt) (cpuset : CpuSet) : CpuSet :=
  if core.toNat < CPU_SETSIZE then insert core.toNat cpuset else cpuset

def CPU_ISSET (core : JInt) (cpuset : CpuSet) : Bool :=
  decide (core.toNat < CPU_SETSIZE ∧ core.toNat ∈ cpuset)

/-- The threads of the operating system. What its calls return is an oracle. -/
structure Platform where
  /-- Return value of the `k`-th affinity call, setting this mask. -/
  setResult : Nat → CpuSet → Int
  /-- Return value of the `k`-th affinity call, reading a mask. -/
  getResult : Nat → Int
  /-- How many affinity calls were made. -/
  calls : Nat
  mask : ThreadId → CpuSet
  /-- The threads started so far, oldest first. -/
  running : List ThreadId

namespace Platform

/-- Only a call that returns 0 changes the mask. -/
def pthread_setaffinity_np (m : Platform) (thread : ThreadId) (cpuset : CpuSet) :
    Int × Platform :=
  let s := m.setResult m.calls cpuset
  let mask := if s = 0 then Function.update m.mask thread cpuset else m.mask
  (s, { m with calls := m.calls + 1, mask })

def pthread_getaffinity_np (m : Platform) (thread : ThreadId) : Int × CpuSet × Platform :=
  (m.getResult m.calls, m.mask thread, { m with calls := m.calls + 1 })

/-- `Thread.start`: the new thread inherits the mask of its creator. -/
def start (m : Platform) (creator thread : ThreadId) : Platform :=
  { m with mask := Function.update m.mask thread (m.mask creator)
           running := m.running ++ [thread] }

end Platform

/-- `self` is the thread that makes the call. -/
def nat_set_thread_affinity (self : ThreadId) (core : JInt) (m : Platform) : JInt × Platform :=
  let cpuset := CPU_SET core ∅
  let (s, m) := m.pthread_setaffinity_np self cpuset
  if s ≠ 0 then
    (0, m)
  else
    let (s, cpuset, m) := m.pthread_getaffinity_np self
    if s ≠ 0 then
      (0, m)
    else if ¬ CPU_ISSET core cpuset then
      (0, m)
    else
      (1, m)

/-! ## Section 2: The starter -/

/-- What a thread runs: the native statistics, or a processing thread. -/
inductive Runnable (ρ : Type) where
  | nativeStats
  | coreThread (ct : ρ)

structure AffinityThread (ρ : Type) where
  r : Runnable ρ
  /-- The argument of the constructor, which the object does not keep. -/
  core : JInt
  worked : Bool
  avail : JInt

def AffinityThread.SUCCESS : JInt := 1

/-- The constructor, run by thread `self`. -/
def AffinityThread.new {ρ : Type} (self : ThreadId) (r : Runnable ρ) (core avail : JInt)
    (m : Platform) : AffinityThread ρ × Platform :=
  let (s, m) := nat_set_thread_affinity self core m
  ({ r, core, worked := decide (s = SUCCESS), avail }, m)

structure ApplicationStarter (ρ : Type) where
  working : Bool
  aff_threads : List (AffinityThread ρ)
  num_available_cores : JInt
  /-- Whether there is a `Stats` object. -/
  stats : Bool

namespace ApplicationStarter

variable {ρ : Type}

/-- The constructor, given what `availableProcessors` returns. -/
def new (num_available_cores : JInt) : ApplicationStarter ρ where
  working := true
  aff_threads := []
  num_available_cores := num_available_cores
  stats := false

def start_native_stats (st : ApplicationStarter ρ) (m : Platform) :
    ApplicationStarter ρ × Platform :=
  let (af, m) := AffinityThread.new .main .nativeStats 0 st.num_available_cores m
  ({ st with aff_threads := st.aff_threads ++ [af] }, m)

/-- What the loop of `createAffinityThreads` does with a thread it has built:
    a failure is remembered and the thread is kept all the same. -/
def register (st : ApplicationStarter ρ) (af : AffinityThread ρ) : ApplicationStarter ρ :=
  let st := if af.worked then st else { st with working := false }
  { st with aff_threads := st.aff_threads ++ [af] }

/-- The loop of `createAffinityThreads`. -/
def createLoop : List ρ → JInt → ApplicationStarter ρ → Platform → ApplicationStarter ρ × Platform
  | [], _, st, m => (st, m)
  | ct :: threads, core, st, m =>
    -- the constructor runs on the thread that builds the object, which is the main thread
    let (af, m) := AffinityThread.new .main (.coreThread ct) core st.num_available_cores m
    createLoop threads (core + 1) (st.register af) m

def createAffinityThreads (st : ApplicationStarter ρ) (threads : List ρ) (m : Platform) :
    ApplicationStarter ρ × Platform :=
  if (threads.length : Int) > st.num_available_cores.toInt then
    ({ st with working := false }, m)
  else
    createLoop threads 1 st m

/-- The loop of `startAll`, from thread `k` on. -/
def startLoop : List (AffinityThread ρ) → Nat → Platform → Platform
  | [], _, m => m
  | _ :: aff_threads, k, m => startLoop aff_threads (k + 1) (m.start .main (.affinity k))

/-- `none` is the end of the process. -/
def startAll (st : ApplicationStarter ρ) (m : Platform) : Option Platform :=
  if ¬ st.working then
    none
  else
    let m := if st.stats then m.start .main .stats else m
    some (startLoop st.aff_threads 0 m)

/-- Every registered thread runs, and its mask is its own core alone. -/
def Pinned (st : ApplicationStarter ρ) (m : Platform) : Prop :=
  ∀ k af, st.aff_threads[k]? = some af →
    .affinity k ∈ m.running ∧ m.mask (.affinity k) = {af.core.toNat}

/-- What an application does before `startAll`. -/
def setUp (num_available_cores : JInt) (threads : List ρ) (native_stats : Bool) (m : Platform) :
    ApplicationStarter ρ × Platform :=
  let (st, m) := (new num_available_cores).createAffinityThreads threads m
  if native_stats then st.start_native_stats m else (st, m)

end ApplicationStarter

/-! ## Section 3: The mask of the main thread -/

/-- A native call that reports success has pinned its caller. -/
theorem nat_set_thread_affinity_success {self : ThreadId} {core : JInt} {m : Platform}
    (h : (nat_set_thread_affinity self core m).1 = 1) :
    (nat_set_thread_affinity self core m).2.mask self = {core.toNat} := by
  unfold nat_set_thread_affinity at h ⊢
  simp only [Platform.pthread_setaffinity_np, Platform.pthread_getaffinity_np] at h ⊢
  -- each early return reports 0
  by_cases hset : m.setResult m.calls (CPU_SET core ∅) = 0
  · by_cases hget : m.getResult (m.calls + 1) = 0
    · by_cases hisset : CPU_ISSET core (CPU_SET core ∅) = true
      · have hsize : core.toNat < CPU_SETSIZE := (of_decide_eq_true hisset).1
        have honly : CPU_SET core ∅ = {core.toNat} := by
          rw [CPU_SET, if_pos hsize]
          rfl
        rw [honly] at hset hisset
        simp [hset, hget, hisset, honly]
      · simp [hset, hget, hisset] at h
    · simp [hset, hget] at h
  · simp [hset] at h

namespace ApplicationStarter

variable {ρ : Type} {st : ApplicationStarter ρ} {m : Platform}

/-- Every affinity call so far succeeded. -/
def AllWorked (st : ApplicationStarter ρ) : Prop := ∀ af ∈ st.aff_threads, af.worked = true

/-- The main thread has been moved to the core of the last thread built. -/
def Follows (st : ApplicationStarter ρ) (m : Platform) : Prop :=
  st.AllWorked → ∀ af, st.aff_threads.getLast? = some af → m.mask .main = {af.core.toNat}

theorem new_follows (num_available_cores : JInt) (m : Platform) :
    (new num_available_cores : ApplicationStarter ρ).Follows m :=
  fun _ _ hlast => absurd hlast nofun

/-- **Step lemma**: one more thread, whatever the mask was before. -/
theorem append_follows {st' : ApplicationStarter ρ} {r : Runnable ρ} {core avail : JInt}
    (h : st'.aff_threads = st.aff_threads ++ [(AffinityThread.new .main r core avail m).1]) :
    st'.Follows (AffinityThread.new .main r core avail m).2 := by
  intro hall af hlast
  rw [h, List.getLast?_concat, Option.some.injEq] at hlast
  have hworked : (AffinityThread.new .main r core avail m).1.worked = true := by
    apply hall
    rw [h]
    exact List.mem_concat_self
  rw [← hlast]
  exact nat_set_thread_affinity_success (of_decide_eq_true hworked)

theorem register_aff_threads (st : ApplicationStarter ρ) (af : AffinityThread ρ) :
    (st.register af).aff_threads = st.aff_threads ++ [af] := by
  unfold register
  cases af.worked <;> rfl

theorem register_allWorked {af : AffinityThread ρ} (h : (st.register af).AllWorked) :
    st.AllWorked ∧ (st.register af).working = st.working := by
  unfold AllWorked at h
  rw [register_aff_threads] at h
  have haf : af.worked = true := h af List.mem_concat_self
  refine ⟨fun af' hmem => h af' (List.mem_append_left _ hmem), ?_⟩
  rw [register, if_pos haf]

/-- The loop gives its threads consecutive cores. -/
theorem createLoop_cores (threads : List ρ) (c : Nat) (st : ApplicationStarter ρ) (m : Platform) :
    (createLoop threads (BitVec.ofNat 32 c) st m).1.aff_threads.map AffinityThread.core =
      st.aff_threads.map AffinityThread.core ++
        (List.range' c threads.length).map (BitVec.ofNat 32) := by
  induction threads generalizing c st m with
  | nil => simp [createLoop]
  | cons ct threads ih =>
    have hnext : BitVec.ofNat 32 c + 1 = BitVec.ofNat 32 (c + 1) := (BitVec.ofNat_add c 1).symm
    simp only [createLoop, hnext]
    rw [ih, register_aff_threads, List.length_cons, List.range'_succ, List.map_cons]
    simp [AffinityThread.new]

/-- **Run lemma**: the loop leaves the main thread on the last of the cores it
    gives to its threads. -/
theorem createLoop_spec (threads : List ρ) (c : Nat) (st : ApplicationStarter ρ) (m : Platform)
    (h : st.Follows m) :
    (createLoop threads (BitVec.ofNat 32 c) st m).1.Follows
      (createLoop threads (BitVec.ofNat 32 c) st m).2 ∧
    (createLoop threads (BitVec.ofNat 32 c) st m).1.aff_threads.map AffinityThread.core =
      st.aff_threads.map AffinityThread.core ++
        (List.range' c threads.length).map (BitVec.ofNat 32) ∧
    ((createLoop threads (BitVec.ofNat 32 c) st m).1.AllWorked → st.AllWorked ∧
      (createLoop threads (BitVec.ofNat 32 c) st m).1.working = st.working) := by
  have hcores := createLoop_cores threads c st m
  induction threads generalizing c st m with
  | nil => exact ⟨h, hcores, fun hall => ⟨hall, rfl⟩⟩
  | cons ct threads ih =>
    have hnext : BitVec.ofNat 32 c + 1 = BitVec.ofNat 32 (c + 1) := (BitVec.ofNat_add c 1).symm
    -- the rest of the loop starts from a list that has grown by one thread
    simp only [createLoop, hnext] at hcores ⊢
    obtain ⟨hfollows, -, hworked⟩ := ih (c + 1) _ _ (append_follows (register_aff_threads ..))
      (createLoop_cores ..)
    refine ⟨hfollows, hcores, ?_⟩
    intro hall
    obtain ⟨hregistered, hworking⟩ := hworked hall
    obtain ⟨hst, hsame⟩ := register_allWorked hregistered
    exact ⟨hst, hworking.trans hsame⟩

/-- What the set-up leaves: threads on cores 1, 2, ..., then the statistics on
    core 0, and the main thread on the core of the last of these. -/
theorem setUp_spec (num_available_cores : JInt) (threads : List ρ) (native_stats : Bool)
    (m : Platform) (haccepted : (threads.length : Int) ≤ num_available_cores.toInt)
    (hworked : (setUp num_available_cores threads native_stats m).1.AllWorked) :
    (setUp num_available_cores threads native_stats m).1.Follows
      (setUp num_available_cores threads native_stats m).2 ∧
    (setUp num_available_cores threads native_stats m).1.aff_threads.map AffinityThread.core =
      (List.range' 1 threads.length).map (BitVec.ofNat 32) ++ (if native_stats then [0] else []) ∧
    (setUp num_available_cores threads native_stats m).1.working = true := by
  have hcreate : (new num_available_cores : ApplicationStarter ρ).createAffinityThreads threads m =
      createLoop threads (BitVec.ofNat 32 1) (new num_available_cores) m :=
    if_neg (Int.not_lt.mpr haccepted)
  obtain ⟨hfollows, hcores, hloop⟩ :=
    createLoop_spec threads 1 (new num_available_cores) m (new_follows num_available_cores m)
  cases native_stats with
  | false =>
    have hsetUp : setUp num_available_cores threads false m =
        createLoop threads (BitVec.ofNat 32 1) (new num_available_cores) m := hcreate
    rw [hsetUp] at hworked ⊢
    exact ⟨hfollows, by simpa [new] using hcores, (hloop hworked).2⟩
  | true =>
    have hsetUp : setUp num_available_cores threads true m =
        (createLoop threads (BitVec.ofNat 32 1) (new num_available_cores) m).1.start_native_stats
          (createLoop threads (BitVec.ofNat 32 1) (new num_available_cores) m).2 := by
      rw [setUp, hcreate]
      rfl
    -- the statistics thread is built last, so main ends up on core 0
    rw [hsetUp] at hworked ⊢
    refine ⟨append_follows rfl, ?_, ?_⟩
    · have happ : ∀ (st : ApplicationStarter ρ) (m : Platform),
          (st.start_native_stats m).1.aff_threads.map AffinityThread.core =
            st.aff_threads.map AffinityThread.core ++ [0] :=
        fun _ _ => List.map_append
      rw [happ, hcores]
      rfl
    · exact (hloop fun af hmem => hworked af (List.mem_append_left _ hmem)).2

end ApplicationStarter

/-! ## Section 4: Starting -/

theorem Platform.start_mask_of_ne (m : Platform) (creator : ThreadId) {t thread : ThreadId}
    (h : t ≠ thread) : (m.start creator thread).mask t = m.mask t :=
  Function.update_of_ne h _ _

namespace ApplicationStarter

variable {ρ : Type}

/-- Every thread that `startLoop` starts inherits the mask of the main thread,
    which stays as it is. -/
theorem startLoop_spec (aff_threads : List (AffinityThread ρ)) (k : Nat) (m : Platform) :
    (∀ t, (t ∈ m.running ∨ ∃ i < aff_threads.length, t = .affinity (k + i)) →
      t ∈ (startLoop aff_threads k m).running) ∧
    (startLoop aff_threads k m).mask .main = m.mask .main ∧
    (∀ i < k, (startLoop aff_threads k m).mask (.affinity i) = m.mask (.affinity i)) ∧
    ∀ i < aff_threads.length,
      (startLoop aff_threads k m).mask (.affinity (k + i)) = m.mask .main := by
  induction aff_threads generalizing k m with
  | nil =>
    refine ⟨?_, rfl, fun _ _ => rfl, fun i hi => absurd hi (Nat.not_lt_zero i)⟩
    rintro t (ht | ⟨i, hi, -⟩)
    · exact ht
    · exact absurd hi (Nat.not_lt_zero i)
  | cons af aff_threads ih =>
    obtain ⟨hrunning, hmain, hearlier, hmask⟩ := ih (k + 1) (m.start .main (.affinity k))
    have hstart : (m.start .main (.affinity k)).mask .main = m.mask .main :=
      Platform.start_mask_of_ne m _ (by simp)
    -- later starts touch neither the main thread nor a thread that runs already
    have hself : (m.start .main (.affinity k)).mask (.affinity k) = m.mask .main :=
      Function.update_self _ _ _
    refine ⟨?_, hmain.trans hstart, ?_, ?_⟩
    · rintro t (ht | ⟨i, hi, rfl⟩)
      · exact hrunning t (Or.inl (List.mem_append_left _ ht))
      · cases i with
        | zero => exact hrunning _ (Or.inl List.mem_concat_self)
        | succ i =>
          rw [List.length_cons] at hi
          exact hrunning _ (Or.inr ⟨i, by omega, by rw [Nat.add_right_comm k 1 i]; rfl⟩)
    · intro i hi
      refine (hearlier i (by omega)).trans (Platform.start_mask_of_ne m _ ?_)
      rw [Ne, ThreadId.affinity.injEq]
      omega
    · intro i hi
      cases i with
      | zero => exact (hearlier k (by omega)).trans hself
      | succ i =>
        rw [List.length_cons] at hi
        have h := hmask i (by omega)
        rw [Nat.add_right_comm k 1 i] at h
        exact h.trans hstart

/-- After `startAll` every registered thread runs with the mask that the main
    thread had. -/
theorem startAll_spec (st : ApplicationStarter ρ) (m : Platform) (hworking : st.working = true) :
    ∃ m', st.startAll m = some m' ∧ ∀ k < st.aff_threads.length,
      .affinity k ∈ m'.running ∧ m'.mask (.affinity k) = m.mask .main := by
  have hmain : (if st.stats then m.start .main .stats else m).mask .main = m.mask .main := by
    cases st.stats with
    | false => rfl
    | true => exact Platform.start_mask_of_ne m _ (by simp)
  -- a new thread inherits the affinity of the thread that starts it
  obtain ⟨hrunning, -, -, hmask⟩ :=
    startLoop_spec st.aff_threads 0 (if st.stats then m.start .main .stats else m)
  refine ⟨_, if_neg (by simpa using hworking), ?_⟩
  intro k hk
  refine ⟨hrunning _ (Or.inr ⟨k, hk, by rw [Nat.zero_add]⟩), ?_⟩
  have h := hmask k hk
  rw [Nat.zero_add] at h
  exact h.trans hmain

/-- The cores of a set-up are all equal to the last one only when there is at
    most one. -/
theorem last_core_ne_one (n : Nat) (native_stats : Bool) {core : JInt} (hn : n < 2 ^ 31)
    (htwo : 2 ≤ n + (if native_stats then 1 else 0))
    (hlast : ((List.range' 1 n).map (BitVec.ofNat 32) ++
      (if native_stats then [0] else [])).getLast? = some core) : core.toNat ≠ 1 := by
  cases native_stats with
  | true =>
    -- the statistics thread comes last, on core 0
    rw [if_pos rfl, List.getLast?_concat, Option.some.injEq] at hlast
    rw [← hlast]
    decide
  | false =>
    obtain ⟨n, rfl⟩ : ∃ k, n = k + 1 := ⟨n - 1, by simp at htwo; omega⟩
    rw [List.range'_concat] at hlast
    simp only [Bool.false_eq_true, if_false, List.append_nil, List.map_append, List.map_cons,
      List.map_nil, List.getLast?_concat, Option.some.injEq] at hlast
    rw [← hlast, BitVec.toNat_ofNat]
    simp at htwo
    omega

/-- The first thread of a set-up with two is on core 1. -/
theorem first_core_eq_one (n : Nat) (native_stats : Bool) {core : JInt}
    (htwo : 2 ≤ n + (if native_stats then 1 else 0))
    (hfirst : ((List.range' 1 n).map (BitVec.ofNat 32) ++
      (if native_stats then [0] else [])).head? = some core) : core = 1 := by
  obtain ⟨n, rfl⟩ : ∃ k, n = k + 1 := ⟨n - 1, by split at htwo <;> omega⟩
  rw [List.range'_succ, List.map_cons, List.cons_append, List.head?_cons,
    Option.some.injEq] at hfirst
  exact hfirst.symm

/-- **Main**: with every affinity call succeeding, the start succeeds, and each
    thread is on its own core exactly when there is at most one of them. -/
theorem pinned_iff (num_available_cores : JInt) (threads : List ρ) (native_stats : Bool)
    (m : Platform) (haccepted : (threads.length : Int) ≤ num_available_cores.toInt)
    (hworked : (setUp num_available_cores threads native_stats m).1.AllWorked) :
    ∃ m', (setUp num_available_cores threads native_stats m).1.startAll
        (setUp num_available_cores threads native_stats m).2 = some m' ∧
      ((setUp num_available_cores threads native_stats m).1.Pinned m' ↔
        threads.length + (if native_stats then 1 else 0) ≤ 1) := by
  obtain ⟨hfollows, hcores, hworking⟩ :=
    setUp_spec num_available_cores threads native_stats m haccepted hworked
  generalize setUp num_available_cores threads native_stats m = r at *
  obtain ⟨m', hstart, hmask⟩ := startAll_spec r.1 r.2 hworking
  have hlen : r.1.aff_threads.length = threads.length + (if native_stats then 1 else 0) := by
    have h := congrArg List.length hcores
    cases native_stats <;> simpa using h
  refine ⟨m', hstart, ?_⟩
  rw [← hlen]
  constructor
  · intro hpinned
    by_contra htwo
    -- the first thread should be on core 1, where the main thread is not
    have hne : r.1.aff_threads ≠ [] := by
      intro hnil
      rw [hnil] at htwo
      exact htwo (Nat.zero_le _)
    have hlast := List.getLast?_eq_some_getLast hne
    -- main is on the core of the last thread, and the first thread inherits that mask
    have hmain := hfollows hworked _ hlast
    have hfirst : (r.1.aff_threads.head hne).core = 1 := by
      apply first_core_eq_one threads.length native_stats (by omega)
      rw [← hcores, List.head?_map, List.head?_eq_some_head hne]
      rfl
    obtain ⟨-, hown⟩ := hpinned 0 (r.1.aff_threads.head hne) (by
      rw [← List.head?_eq_getElem?, List.head?_eq_some_head hne])
    have hinherited := (hmask 0 (by omega)).2
    rw [hown, hmain, hfirst, Finset.singleton_inj] at hinherited
    have hlt := num_available_cores.toInt_lt
    refine last_core_ne_one threads.length native_stats (by omega) (by omega) ?_ hinherited.symm
    rw [← hcores, List.getLast?_map, hlast]
    rfl
  · -- a single thread is the last one
    intro hone k af haf
    obtain ⟨hk, hget⟩ := List.getElem?_eq_some_iff.mp haf
    obtain ⟨hrunning, hinherited⟩ := hmask k hk
    refine ⟨hrunning, hinherited.trans (hfollows hworked af ?_)⟩
    have hsingle : r.1.aff_threads = [af] := by
      obtain ⟨x, hx⟩ := List.length_eq_one_iff.mp (show r.1.aff_threads.length = 1 by omega)
      rw [hx] at haf
      have hzero : k = 0 := by omega
      rw [hzero, List.getElem?_cons_zero, Option.some.injEq] at haf
      rw [hx, haf]
    rw [hsingle]
    rfl

/-- A platform where every affinity call succeeds, with the main thread on any
    of four cores. -/
def fourCores : Platform where
  setResult := fun _ _ => 0
  getResult := fun _ => 0
  calls := 0
  mask := fun _ => {0, 1, 2, 3}
  running := [.main]

/-- One processing thread alone ends up on core 1. -/
theorem pinned_one_thread :
    ∃ m', (setUp 4 [()] false fourCores).1.startAll (setUp 4 [()] false fourCores).2 = some m' ∧
      (setUp 4 [()] false fourCores).1.Pinned m' := by
  obtain ⟨m', hstart, hiff⟩ :=
    pinned_iff 4 [()] false fourCores (by decide) (by unfold AllWorked; decide)
  exact ⟨m', hstart, hiff.mpr (by decide)⟩

/-- Two processing threads: the first one is not on core 1. -/
theorem first_of_two_threads_not_pinned :
    ∃ m', (setUp 4 [(), ()] false fourCores).1.startAll (setUp 4 [(), ()] false fourCores).2 =
        some m' ∧
      (setUp 4 [(), ()] false fourCores).1.AllWorked ∧
      ¬ (setUp 4 [(), ()] false fourCores).1.Pinned m' := by
  obtain ⟨m', hstart, hmask⟩ := startAll_spec (setUp 4 [(), ()] false fourCores).1
    (setUp 4 [(), ()] false fourCores).2 (by decide)
  refine ⟨m', hstart, by unfold AllWorked; decide, ?_⟩
  intro hpinned
  have hmain : (setUp 4 [(), ()] false fourCores).2.mask .main = {2} := by decide
  have hown := (hpinned 0 ⟨.coreThread (), 1, true, 4⟩ rfl).2
  rw [(hmask 0 (by decide)).2, hmain] at hown
  exact absurd hown (by decide)

end ApplicationStarter

end PacketPro.DpdkJava
