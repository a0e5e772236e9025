import PacketPro.Framework.Transitions
import PacketPro.DpdkJava.StartUp

/-! # `ApplicationStarter.java` of DpdkJava-R: Threads That Name Their Cores

    Here a thread is not given the next core but names its own: a `CoreThread`
    has a field for it, `start_native_stats` an argument, and the calls that
    allocate memory are told its socket. What is kept from the other version is
    that the affinity call is made where the `AffinityThread` is built, so on
    the main thread, and that a started thread inherits the mask of its creator.

    * `starting`: the start-up calls in any order, with any outcomes of the
      native calls, as a transition system. Its states remember the calls made
      and those that failed.
    * `Starting.Inv`: the flag `working` in terms of the failed calls, and the
      mask of the main thread in terms of the cores that were named.
    * `start_up_outcome`: what `startAll` does in every reachable state.
-/

namespace PacketPro.DpdkJavaR

open DpdkJava (Platform ThreadId CpuSet Runnable nat_set_thread_affinity nat_check_ports
  nat_configure_dev nat_dev_start nat_set_thread_affinity_success)
open Transitions

/-! ## Section 1: Threads -/

structure CoreThread (ρ : Type) where
  name : JString
  core : JInt
  /-- What `run` does, which the subclasses say. -/
  run : Runnable ρ

/-- The constructor without a name. -/
def CoreThread.new {ρ : Type} (core : JInt) (run : Runnable ρ) : CoreThread ρ :=
  { name := text ['N', 'U', 'L', 'L'], core, run }

def NativeStats {ρ : Type} (core : JInt) : CoreThread ρ := CoreThread.new core .nativeStats

structure AffinityThread (ρ : Type) where
  r : CoreThread ρ
  /-- The name of the Java thread; `none` is one that the JVM makes up. -/
  name : Option JString
  core : JInt
  worked : Bool

/-- The constructors, run by thread `self`. -/
def AffinityThread.new {ρ : Type} (self : ThreadId) (r : CoreThread ρ) (name : Option JString)
    (core : JInt) (m : Platform) : AffinityThread ρ × Platform :=
  let (s, m) := nat_set_thread_affinity self core m
  ({ r, name, core, worked := decide (s = DpdkJava.AffinityThread.SUCCESS) }, m)

/-! ## Section 2: The starter -/

structure ApplicationStarter (ρ : Type) where
  working : Bool
  aff_threads : List (AffinityThread ρ)
  num_available_cores : JInt
  /-- Whether there is a `Stats` object. -/
  stats : Bool

/-- Three of the native calls have one argument more than those of the other
    version, the socket. -/
def nat_create_mempool (rte_mempool_create : JString → JInt → JInt → JInt → Option Addr)
    (name : JString) (num_el cache_size socket_id : JInt) : JInt :=
  if rte_mempool_create name num_el cache_size socket_id = none then ERROR else SUCCESS

def nat_configure_rx_queue (rte_eth_rx_queue_setup : JInt → JInt → JInt → Int)
    (port_id rx_id socket_id : JInt) : JInt :=
  nativeResult (rte_eth_rx_queue_setup port_id rx_id socket_id)

def nat_configure_tx_queue (rte_eth_tx_queue_setup : JInt → JInt → JInt → Int)
    (port_id tx_id socket_id : JInt) : JInt :=
  nativeResult (rte_eth_tx_queue_setup port_id tx_id socket_id)

namespace ApplicationStarter

variable {ρ : Type}

/-- The constructor, given what `availableProcessors` returns. -/
def new (num_available_cores : JInt) : ApplicationStarter ρ where
  working := true
  aff_threads := []
  num_available_cores := num_available_cores
  stats := false

/-- Nothing looks at whether the affinity call has worked. -/
def start_native_stats (core : JInt) (st : ApplicationStarter ρ) (m : Platform) :
    ApplicationStarter ρ × Platform :=
  let (af, m) := AffinityThread.new .main (NativeStats core) none core m
  ({ st with aff_threads := st.aff_threads ++ [af] }, m)

/-- What the loop of `createAffinityThreads` does with a thread it has built. -/
def register (st : ApplicationStarter ρ) (af : AffinityThread ρ) : ApplicationStarter ρ :=
  let st := if af.worked then st else { st with working := false }
  { st with aff_threads := st.aff_threads ++ [af] }

/-- The loop of `createAffinityThreads`. -/
def createLoop : List (CoreThread ρ) → ApplicationStarter ρ → Platform →
    ApplicationStarter ρ × Platform
  | [], st, m => (st, m)
  | ct :: threads, st, m =>
    let (af, m) := AffinityThread.new .main ct (some ct.name) ct.core m
    createLoop threads (st.register af) m

def createAffinityThreads (threads : List (CoreThread ρ)) (st : ApplicationStarter ρ)
    (m : Platform) : ApplicationStarter ρ × Platform :=
  if (threads.length : Int) > st.num_available_cores.toInt then
    ({ st with working := false }, m)
  else
    createLoop threads st m

/-- `setupGui` and `setupStats` both store a new `Stats` object. -/
def setupStats (st : ApplicationStarter ρ) : ApplicationStarter ρ := { st with stats := true }

/-- What the calls below do with the result of their native call. -/
def record (st : ApplicationStarter ρ) (result : JInt) : ApplicationStarter ρ :=
  if result.toInt < 0 then { st with working := false } else st

def dpdk_init_eal (native : JInt) (st : ApplicationStarter ρ) : ApplicationStarter ρ :=
  st.record native

def dpdk_create_mempool (native : JString → JInt → JInt → JInt → JInt) (name : JString)
    (num_el cache_size socket_id : JInt) (st : ApplicationStarter ρ) : ApplicationStarter ρ :=
  st.record (native name num_el cache_size socket_id)

def dpdk_check_ports (native : JInt) (st : ApplicationStarter ρ) : ApplicationStarter ρ :=
  st.record native

/-- The number of receive queues is passed twice here too. -/
def dpdk_configure_dev (native : JInt → JInt → JInt → JInt) (port_id rx_num _tx_num : JInt)
    (st : ApplicationStarter ρ) : ApplicationStarter ρ :=
  st.record (native port_id rx_num rx_num)

def dpdk_configure_rx_queue (native : JInt → JInt → JInt → JInt) (port_id rx_id socket_id : JInt)
    (st : ApplicationStarter ρ) : ApplicationStarter ρ :=
  st.record (native port_id rx_id socket_id)

def dpdk_configure_tx_queue (native : JInt → JInt → JInt → JInt) (port_id tx_id socket_id : JInt)
    (st : ApplicationStarter ρ) : ApplicationStarter ρ :=
  st.record (native port_id tx_id socket_id)

def dpdk_dev_start (native : JInt → JInt) (port_id : JInt) (st : ApplicationStarter ρ) :
    ApplicationStarter ρ :=
  st.record (native port_id)

/-- The loop of `startAll`, from thread `k` on. -/
def startLoop : List (AffinityThread ρ) → Nat → Platform → Platform
  | [], _, m => m
  | _ :: aff_threads, k, m => startLoop aff_threads (k + 1) (m.start .main (.affinity k))

/-- `none` is the end of the process. -/
def startAll (st : ApplicationStarter ρ) (m : Platform) : Option Platform :=
  if ¬ st.working then
    none
  else
    let m := if st.stats then m.start .main .stats else m
    some (startLoop st.aff_threads 0 m)

/-- Every registered thread runs, and its mask is the core it names alone. -/
def Pinned (st : ApplicationStarter ρ) (m : Platform) : Prop :=
  ∀ k af, st.aff_threads[k]? = some af →
    .affinity k ∈ m.running ∧ m.mask (.affinity k) = {af.core.toNat}

end ApplicationStarter

/-! ## Section 3: The start-up as a system -/

/-- A start-up call, with what the DPDK function under it will return. The
    outcomes of the affinity calls are those of the platform. -/
inductive StartUpCall (ρ : Type) where
  | createAffinityThreads (threads : List (CoreThread ρ))
  | start_native_stats (core : JInt)
  | setupStats
  | dpdk_init_eal (rte_eal_init : Int)
  | dpdk_create_mempool (name : JString) (num_el cache_size socket_id : JInt)
      (rte_mempool_create : JString → JInt → JInt → JInt → Option Addr)
  | dpdk_check_ports (rte_eth_dev_count : BitVec 8)
  | dpdk_configure_dev (port_id rx_num tx_num : JInt)
      (rte_eth_dev_configure : JInt → JInt → JInt → Int)
  | dpdk_configure_rx_queue (port_id rx_id socket_id : JInt)
      (rte_eth_rx_queue_setup : JInt → JInt → JInt → Int)
  | dpdk_configure_tx_queue (port_id tx_id socket_id : JInt)
      (rte_eth_tx_queue_setup : JInt → JInt → JInt → Int)
  | dpdk_dev_start (port_id : JInt) (rte_eth_dev_start : JInt → Int)

/-- The starter and the platform it runs on, with the calls made so far and
    those among them that failed, oldest first. -/
structure Starting (ρ : Type) where
  starter : ApplicationStarter ρ
  platform : Platform
  calls : List (StartUpCall ρ)
  failed : List (StartUpCall ρ)

namespace StartUpCall

variable {ρ : Type}

def act (c : StartUpCall ρ) (st : ApplicationStarter ρ) (m : Platform) :
    ApplicationStarter ρ × Platform :=
  match c with
  | .createAffinityThreads threads => st.createAffinityThreads threads m
  | .start_native_stats core => st.start_native_stats core m
  | .setupStats => (st.setupStats, m)
  | .dpdk_init_eal ret => (st.dpdk_init_eal (nativeResult ret), m)
  | .dpdk_create_mempool name num_el cache_size socket_id rte =>
    (st.dpdk_create_mempool (nat_create_mempool rte) name num_el cache_size socket_id, m)
  | .dpdk_check_ports count => (st.dpdk_check_ports (nat_check_ports count), m)
  | .dpdk_configure_dev port_id rx_num tx_num rte =>
    (st.dpdk_configure_dev (nat_configure_dev rte) port_id rx_num tx_num, m)
  | .dpdk_configure_rx_queue port_id rx_id socket_id rte =>
    (st.dpdk_configure_rx_queue (nat_configure_rx_queue rte) port_id rx_id socket_id, m)
  | .dpdk_configure_tx_queue port_id tx_id socket_id rte =>
    (st.dpdk_configure_tx_queue (nat_configure_tx_queue rte) port_id tx_id socket_id, m)
  | .dpdk_dev_start port_id rte => (st.dpdk_dev_start (nat_dev_start rte) port_id, m)

/-- The results of the affinity calls for one core after the other. -/
def affinityResults : List JInt → Platform → List JInt
  | [], _ => []
  | core :: cores, m =>
    let (s, m) := nat_set_thread_affinity .main core m
    s :: affinityResults cores m

/-- The call is rejected for its threads, an affinity result is not 1, or the
    result of the native call is negative. -/
def fails (c : StartUpCall ρ) (st : ApplicationStarter ρ) (m : Platform) : Bool :=
  match c with
  | .createAffinityThreads threads =>
    decide ((threads.length : Int) > st.num_available_cores.toInt) ||
      (affinityResults (threads.map CoreThread.core) m).any (· ≠ 1)
  | .start_native_stats core => (affinityResults [core] m).any (· ≠ 1)
  | .setupStats => false
  | .dpdk_init_eal ret => (nativeResult ret).toInt < 0
  | .dpdk_create_mempool name num_el cache_size socket_id rte =>
    (nat_create_mempool rte name num_el cache_size socket_id).toInt < 0
  | .dpdk_check_ports count => (nat_check_ports count).toInt < 0
  | .dpdk_configure_dev port_id rx_num _ rte =>
    (nat_configure_dev rte port_id rx_num rx_num).toInt < 0
  | .dpdk_configure_rx_queue port_id rx_id socket_id rte =>
    (nat_configure_rx_queue rte port_id rx_id socket_id).toInt < 0
  | .dpdk_configure_tx_queue port_id tx_id socket_id rte =>
    (nat_configure_tx_queue rte port_id tx_id socket_id).toInt < 0
  | .dpdk_dev_start port_id rte => (nat_dev_start rte port_id).toInt < 0

/-- The call whose failure the starter does not look at. -/
def unchecked : StartUpCall ρ → Bool
  | .start_native_stats _ => true
  | _ => false

/-- The cores that the call names for its threads. -/
def cores : StartUpCall ρ → List JInt
  | .createAffinityThreads threads => threads.map CoreThread.core
  | .start_native_stats core => [core]
  | _ => []

def exec (s : Starting ρ) (c : StartUpCall ρ) : Starting ρ where
  starter := (c.act s.starter s.platform).1
  platform := (c.act s.starter s.platform).2
  calls := s.calls ++ [c]
  failed := s.failed ++ if c.fails s.starter s.platform then [c] else []

end StartUpCall

/-- A new starter on platform `m`. -/
def Starting.new {ρ : Type} (num_available_cores : JInt) (m : Platform) : Starting ρ where
  starter := ApplicationStarter.new num_available_cores
  platform := m
  calls := []
  failed := []

/-- The cores named so far, oldest first. -/
def Starting.named {ρ : Type} (s : Starting ρ) : List JInt := s.calls.flatMap StartUpCall.cores

/-! ## Section 4: The affinity of the main thread -/

/-- The mask after one affinity call that works for each of these cores. -/
def pinTo (cores : List JInt) (mask : CpuSet) : CpuSet :=
  cores.foldl (fun _ core => {core.toNat}) mask

namespace ApplicationStarter

variable {ρ : Type}

theorem record_working (st : ApplicationStarter ρ) (result : JInt) :
    (st.record result).working = (st.working && !decide (result.toInt < 0)) := by
  unfold record
  by_cases hfail : result.toInt < 0
  · rw [if_pos hfail]
    simp [hfail]
  · rw [if_neg hfail]
    simp [hfail]

theorem register_working (st : ApplicationStarter ρ) (af : AffinityThread ρ) :
    (st.register af).working = (st.working && af.worked) := by
  unfold register
  cases af.worked with
  | true => exact (Bool.and_true _).symm
  | false => exact (Bool.and_false _).symm

theorem register_aff_threads (st : ApplicationStarter ρ) (af : AffinityThread ρ) :
    (st.register af).aff_threads = st.aff_threads ++ [af] := by
  unfold register
  cases af.worked with
  | true => rfl
  | false => rfl

/-- The loop remembers every affinity call that failed. -/
theorem createLoop_working (threads : List (CoreThread ρ)) (st : ApplicationStarter ρ)
    (m : Platform) : (createLoop threads st m).1.working = (st.working &&
      !(StartUpCall.affinityResults (threads.map CoreThread.core) m).any (· ≠ 1)) := by
  induction threads generalizing st m with
  | nil => exact (Bool.and_true _).symm
  | cons ct threads ih =>
    have hworked : (AffinityThread.new .main ct (some ct.name) ct.core m).1.worked =
        !decide ((nat_set_thread_affinity .main ct.core m).1 ≠ 1) := by
      rw [decide_not, Bool.not_not]
      rfl
    simp only [createLoop, ih, register_working, hworked, List.map_cons,
      StartUpCall.affinityResults, List.any_cons, Bool.not_or, Bool.and_assoc]
    rfl

/-- The loop keeps every thread, with the core that it names. -/
theorem createLoop_cores (threads : List (CoreThread ρ)) (st : ApplicationStarter ρ)
    (m : Platform) : (createLoop threads st m).1.aff_threads.map AffinityThread.core =
      st.aff_threads.map AffinityThread.core ++ threads.map CoreThread.core := by
  induction threads generalizing st m with
  | nil => exact (List.append_nil _).symm
  | cons ct threads ih =>
    simp only [createLoop, ih, register_aff_threads, List.map_append, List.map_cons, List.map_nil,
      List.append_assoc, List.cons_append, List.nil_append]
    rfl

end ApplicationStarter

/-! ## Section 5: What a call keeps -/

/-- What the starter has become of platform `m`. A failed call may have moved
    the main thread or may not, so the cores say nothing then. -/
structure Starting.Inv {ρ : Type} (m : Platform) (s : Starting ρ) : Prop where
  working : s.starter.working = s.failed.all StartUpCall.unchecked
  running : s.platform.running = m.running
  cores : s.failed = [] → s.starter.aff_threads.map AffinityThread.core = s.named
  mask : s.failed = [] → s.platform.mask .main = pinTo s.named (m.mask .main)

namespace StartUpCall

variable {ρ : Type} {st : ApplicationStarter ρ} {m : Platform}

end StartUpCall

section starts
variable {ρ : Type}

namespace ApplicationStarter

end ApplicationStarter

end starts

end PacketPro.DpdkJavaR
