import Mathlib.Algebra.BigOperators.Pi
import Mathlib.Data.BitVec
import PacketPro.Framework.Meters
import PacketPro.Framework.Transitions
import PacketPro.DpdkJava.ReceivePoller
import PacketPro.DpdkJavaR.PacketList
import PacketPro.Transmission

/-! # `Stats.java`: Collecting the Statistics

    A `Stats` object keeps lists of pollers and senders. A timer makes it read
    the interval counters of all of them, reset these, and add what it read to
    its totals. The class is the same in both versions of the framework, and so
    are the statistics methods of pollers and senders (`Counters`).

    The system here is one `Stats` object with any number of pollers and
    senders, of which each call is one step. Pollers and senders may work
    before the object is made and before they are registered.

    * **Receiving**: pollers and the received totals are a collector with its
      meters, which is always balanced.
    * **Transmitting**: no sender ever counts anything, so the transmitted
      totals are right only as long as nothing is handed over.
-/

open ByteMem Batching Meters Transitions

namespace PacketPro

/-! ## Section 1: Definitions -/

/-- The statistics of a poller or a sender. -/
class Counters (α : Type) where
  getPacketAll : α → JLong
  getPacketAllSize : α → JLong
  getPacketInterval : α → JLong
  getPacketIntervalSize : α → JLong
  resetInterval : α → α

export Counters (getPacketAll getPacketAllSize getPacketInterval getPacketIntervalSize
  resetInterval)

instance : Counters DpdkJava.ReceivePoller where
  getPacketAll rp := rp.packet_all
  getPacketAllSize rp := rp.packet_all_size
  getPacketInterval rp := rp.packet_interval
  getPacketIntervalSize rp := rp.packet_interval_size
  resetInterval rp := rp.resetInterval

instance : Counters DpdkJava.PacketSender where
  getPacketAll ps := ps.packet_all
  getPacketAllSize ps := ps.packet_all_size
  getPacketInterval ps := ps.packet_interval
  getPacketIntervalSize ps := ps.packet_interval_size
  resetInterval ps := { ps with packet_interval := 0, packet_interval_size := 0 }

instance : Counters DpdkJavaR.ReceivePoller where
  getPacketAll rp := rp.packet_all
  getPacketAllSize rp := rp.packet_all_size
  getPacketInterval rp := rp.packet_interval
  getPacketIntervalSize rp := rp.packet_interval_size
  resetInterval rp := { rp with packet_interval := 0, packet_interval_size := 0 }

instance : Counters DpdkJavaR.PacketSender where
  getPacketAll ps := ps.packet_all
  getPacketAllSize ps := ps.packet_all_size
  getPacketInterval ps := ps.packet_interval
  getPacketIntervalSize ps := ps.packet_interval_size
  resetInterval ps := { ps with packet_interval := 0, packet_interval_size := 0 }

/-- A `Stats` object. Pollers and senders are known by name, so that `contains`
    compares references. -/
structure Stats (ι τ : Type) where
  receivers : List ι
  transmitters : List τ
  repeat_delay : JLong
  received_packet_total : JLong
  received_packet_total_size : JLong
  transmitted_packet_total : JLong
  transmitted_packet_total_size : JLong
  gui : Bool

/-- What one `CollectStats.run` shows besides the totals. -/
structure Intervals where
  transmitted_packet_interval : JLong
  transmitted_Packet_interval_size : JLong
  received_packet_interval : JLong
  received_packet_interval_size : JLong

namespace Stats

variable {ι τ ρ σ α κ : Type} [DecidableEq ι] [DecidableEq τ] [DecidableEq κ]
  [Counters ρ] [Counters σ] [Counters α]

def SECOND : JLong := 1000

/-- The constructor with a delay; the others pass `SECOND`, and empty lists. -/
def new (receivers : List ι) (transmitters : List τ) (repeat_delay : JLong) (gui : Bool) :
    Stats ι τ where
  receivers := receivers
  transmitters := transmitters
  repeat_delay := repeat_delay
  received_packet_total := 0
  received_packet_total_size := 0
  transmitted_packet_total := 0
  transmitted_packet_total_size := 0
  gui := gui

def addReceiver (st : Stats ι τ) (rp : ι) : Stats ι τ :=
  if rp ∈ st.receivers then st else { st with receivers := st.receivers ++ [rp] }

def addReceivers (st : Stats ι τ) : List ι → Stats ι τ
  | [] => st
  | rp :: list => (st.addReceiver rp).addReceivers list

def addTransmitter (st : Stats ι τ) (ps : τ) : Stats ι τ :=
  if ps ∈ st.transmitters then st else { st with transmitters := st.transmitters ++ [ps] }

def addTransmitters (st : Stats ι τ) : List τ → Stats ι τ
  | [] => st
  | ps :: list => (st.addTransmitter ps).addTransmitters list

/-- The loops of `CollectStats.run`: add up the intervals and reset them. -/
def collectLoop : List κ → JLong → JLong → (κ → α) → JLong × JLong × (κ → α)
  | [], interval, interval_size, objects => (interval, interval_size, objects)
  | k :: list, interval, interval_size, objects =>
    collectLoop list (interval + getPacketInterval (objects k))
      (interval_size + getPacketIntervalSize (objects k))
      (Function.update objects k (resetInterval (objects k)))

/-- `CollectStats.run`. -/
def collect (st : Stats ι τ) (pollers : ι → ρ) (senders : τ → σ) :
    Intervals × Stats ι τ × (ι → ρ) × (τ → σ) :=
  let (transmitted, transmitted_size, senders) := collectLoop st.transmitters 0 0 senders
  let (received, received_size, pollers) := collectLoop st.receivers 0 0 pollers
  ({ transmitted_packet_interval := transmitted
     transmitted_Packet_interval_size := transmitted_size
     received_packet_interval := received
     received_packet_interval_size := received_size },
    { st with
      received_packet_total := st.received_packet_total + received
      received_packet_total_size := st.received_packet_total_size + received_size
      transmitted_packet_total := st.transmitted_packet_total + transmitted
      transmitted_packet_total_size := st.transmitted_packet_total_size + transmitted_size },
    pollers, senders)

end Stats

/-- The pollers and senders of an application and its `Stats` object, once it
    is made. -/
structure Monitored (ι τ ρ σ : Type) where
  pollers : ι → ρ
  senders : τ → σ
  stats : Option (Stats ι τ)
  world : World

/-- The calls of the system. -/
inductive MonitorCall (ι τ : Type) where
  | construct (receivers : List ι) (transmitters : List τ) (repeat_delay : JLong) (gui : Bool)
  | getBurst (rp : ι) (delivered : List RxMbuf)
  | sendPacket (ps : τ) (p : Packet)
  | addReceiver (rp : ι)
  | addReceivers (list : List ι)
  | addTransmitter (ps : τ)
  | addTransmitters (list : List τ)
  | collect

namespace Monitored

variable {ι τ ρ σ : Type} [DecidableEq ι] [DecidableEq τ] [Counters ρ] [Counters σ]

/-- One call. There is one `Stats` object: it is made once, and its methods
    need it. -/
def exec (getBurst : ρ → List RxMbuf → World → ρ × World)
    (sendPacket : σ → Packet → World → σ × World) (s : Monitored ι τ ρ σ) :
    MonitorCall ι τ → Option (Monitored ι τ ρ σ)
  | .construct receivers transmitters repeat_delay gui =>
    match s.stats with
    | none => some { s with stats := some (Stats.new receivers transmitters repeat_delay gui) }
    | some _ => none
  | .getBurst i delivered =>
    let (rp, world) := getBurst (s.pollers i) delivered s.world
    some { s with pollers := Function.update s.pollers i rp, world }
  | .sendPacket t p =>
    let (ps, world) := sendPacket (s.senders t) p s.world
    some { s with senders := Function.update s.senders t ps, world }
  | .addReceiver i => s.stats.map fun st => { s with stats := some (st.addReceiver i) }
  | .addReceivers list => s.stats.map fun st => { s with stats := some (st.addReceivers list) }
  | .addTransmitter t => s.stats.map fun st => { s with stats := some (st.addTransmitter t) }
  | .addTransmitters list =>
    s.stats.map fun st => { s with stats := some (st.addTransmitters list) }
  | .collect => s.stats.map fun st =>
    let (_, st, pollers, senders) := st.collect s.pollers s.senders
    { s with stats := some st, pollers, senders }

/-- A `Stats` object is made only where there is none. -/
theorem exec_construct {getBurst : ρ → List RxMbuf → World → ρ × World}
    {sendPacket : σ → Packet → World → σ × World} {s s' : Monitored ι τ ρ σ} {receivers : List ι}
    {transmitters : List τ} {repeat_delay : JLong} {gui : Bool}
    (h : s.exec getBurst sendPacket (.construct receivers transmitters repeat_delay gui) =
      some s') :
    s.stats = none ∧
      s' = { s with stats := some (Stats.new receivers transmitters repeat_delay gui) } := by
  rcases hstats : s.stats with _ | st
  · rw [exec, hstats, Option.some.injEq] at h
    exact ⟨rfl, h.symm⟩
  · rw [exec, hstats] at h
    exact absurd h nofun

end Monitored

/-- The system over new pollers and senders; nothing is on its way yet. -/
def monitor {ι τ ρ σ : Type} [DecidableEq ι] [DecidableEq τ] [Counters ρ] [Counters σ]
    (NewPoller : ρ → Prop) (NewSender : σ → Prop)
    (getBurst : ρ → List RxMbuf → World → ρ × World)
    (sendPacket : σ → Packet → World → σ × World) :
    System (Monitored ι τ ρ σ) (MonitorCall ι τ) where
  init s := (∀ i, NewPoller (s.pollers i)) ∧ (∀ t, NewSender (s.senders t)) ∧ s.stats = none ∧
    s.world.nic.txBursts = []
  step s c s' := s.exec getBurst sendPacket c = some s'

/-- The system of `DpdkJava`. -/
def DpdkJava.monitor (ι τ : Type) [DecidableEq ι] [DecidableEq τ] :
    System (Monitored ι τ DpdkJava.ReceivePoller DpdkJava.PacketSender) (MonitorCall ι τ) :=
  PacketPro.monitor (fun rp => ∃ mem_pointer, rp = DpdkJava.ReceivePoller.new mem_pointer)
    (fun ps => ∃ start_pointer w, ps = (DpdkJava.PacketSender.new start_pointer w).1)
    (fun rp delivered w => (rp.getBurst delivered w).2) DpdkJava.PacketSender.sendPacket

/-- The system of `DpdkJava-R`. -/
def DpdkJavaR.monitor (ι τ : Type) [DecidableEq ι] [DecidableEq τ] :
    System (Monitored ι τ DpdkJavaR.ReceivePoller DpdkJavaR.PacketSender) (MonitorCall ι τ) :=
  PacketPro.monitor (fun rp => ∃ mem_pointer, rp = DpdkJavaR.ReceivePoller.new mem_pointer)
    (fun ps => ∃ startPointer w, ps = (DpdkJavaR.PacketSender.new startPointer w).1)
    (fun rp delivered w => (rp.getBurst delivered w).2) DpdkJavaR.PacketSender.sendPacket

/-! ## Section 2: The collecting loop -/

/-- The counters of an object as a meter of counts and sizes. -/
def Counters.meter {α : Type} [Counters α] (x : α) : Meter (JLong × JLong) where
  all := (getPacketAll x, getPacketAllSize x)
  interval := (getPacketInterval x, getPacketIntervalSize x)

/-- A reset clears the interval and nothing else. -/
def Counters.Resets (α : Type) [Counters α] : Prop :=
  ∀ x : α, meter (resetInterval x) = ⟨(meter x).all, 0⟩

section collecting
variable {κ α : Type} [DecidableEq κ] [Counters α] (hresets : Counters.Resets α)
include hresets

/-- An object that was visited counts for nothing when it is visited again. -/
theorem sum_reset (s : Finset κ) (objects : κ → α) (k : κ) :
    ∑ j ∈ s, (Counters.meter (Function.update objects k (resetInterval (objects k)) j)).interval =
      ∑ j ∈ s.erase k, (Counters.meter (objects j)).interval := by
  have hother : ∀ j ∈ s.erase k,
      (Counters.meter (Function.update objects k (resetInterval (objects k)) j)).interval =
        (Counters.meter (objects j)).interval := by
    intro j hj
    rw [Function.update_of_ne (Finset.ne_of_mem_erase hj)]
  rw [← Finset.sum_congr rfl hother]
  by_cases hk : k ∈ s
  · rw [← Finset.add_sum_erase s _ hk, Function.update_self, hresets, zero_add]
  · rw [Finset.erase_eq_of_notMem hk]

/-- **The loop adds up each object once**, even if the list has it twice. -/
theorem collectLoop_sum (list : List κ) (interval interval_size : JLong) (objects : κ → α) :
    ((Stats.collectLoop list interval interval_size objects).1,
      (Stats.collectLoop list interval interval_size objects).2.1) =
      (interval, interval_size) +
        ∑ k ∈ list.toFinset, (Counters.meter (objects k)).interval := by
  induction list generalizing interval interval_size objects with
  | nil => rw [List.toFinset_nil, Finset.sum_empty, add_zero]; rfl
  | cons k list ih =>
    -- the first visit resets the object, so later visits in the list add nothing
    have hfirst : (interval + getPacketInterval (objects k),
        interval_size + getPacketIntervalSize (objects k)) =
        (interval, interval_size) + (Counters.meter (objects k)).interval := rfl
    rw [Stats.collectLoop, ih, sum_reset hresets, hfirst, add_assoc, List.toFinset_cons,
      ← Finset.add_sum_erase _ _ (Finset.mem_insert_self k list.toFinset),
      Finset.erase_insert_eq_erase]

/-- The loop resets the objects of the list. -/
theorem collectLoop_meter (list : List κ) (interval interval_size : JLong) (objects : κ → α)
    (j : κ) :
    Counters.meter ((Stats.collectLoop list interval interval_size objects).2.2 j) =
      if j ∈ list then ⟨(Counters.meter (objects j)).all, 0⟩ else Counters.meter (objects j) := by
  induction list generalizing interval interval_size objects with
  | nil => rfl
  | cons k list ih =>
    rw [Stats.collectLoop, ih]
    by_cases hjk : j = k
    · subst hjk
      rw [Function.update_self, hresets, if_pos List.mem_cons_self]
      split <;> rfl
    · rw [Function.update_of_ne hjk]
      simp only [List.mem_cons, hjk, false_or]

end collecting

/-! ## Section 3: What is received -/

namespace Stats

variable {ι τ : Type}

/-- The totals of a `Stats` object for what was received. -/
def received (st : Stats ι τ) : JLong × JLong :=
  (st.received_packet_total, st.received_packet_total_size)

section receivers
variable [DecidableEq ι]

theorem addReceiver_toFinset (st : Stats ι τ) (rp : ι) :
    (st.addReceiver rp).receivers.toFinset = st.receivers.toFinset ∪ {rp} := by
  unfold addReceiver
  split
  · rename_i hmem
    exact (Finset.union_eq_left.mpr (Finset.singleton_subset_iff.mpr
      (List.mem_toFinset.mpr hmem))).symm
  · rw [List.toFinset_append]
    rfl

theorem addReceivers_toFinset (st : Stats ι τ) (list : List ι) :
    (st.addReceivers list).receivers.toFinset = st.receivers.toFinset ∪ list.toFinset := by
  induction list generalizing st with
  | nil => rw [List.toFinset_nil, Finset.union_empty]; rfl
  | cons rp list ih =>
    rw [addReceivers, ih, addReceiver_toFinset, Finset.union_assoc, List.toFinset_cons]
    rfl

/-- Registering does not touch the totals. -/
theorem addReceiver_received (st : Stats ι τ) (rp : ι) :
    (st.addReceiver rp).received = st.received := by
  unfold addReceiver
  split <;> rfl

theorem addReceivers_received (st : Stats ι τ) (list : List ι) :
    (st.addReceivers list).received = st.received := by
  induction list generalizing st with
  | nil => rfl
  | cons rp list ih => rw [addReceivers, ih, addReceiver_received]

end receivers

section transmitters
variable [DecidableEq τ]

/-- Registering senders concerns neither the receivers nor the totals. -/
theorem addTransmitter_same (st : Stats ι τ) (ps : τ) :
    (st.addTransmitter ps).receivers = st.receivers ∧
    (st.addTransmitter ps).received = st.received := by
  unfold addTransmitter
  split <;> exact ⟨rfl, rfl⟩

theorem addTransmitters_same (st : Stats ι τ) (list : List τ) :
    (st.addTransmitters list).receivers = st.receivers ∧
    (st.addTransmitters list).received = st.received := by
  induction list generalizing st with
  | nil => exact ⟨rfl, rfl⟩
  | cons ps list ih =>
    obtain ⟨hreceivers, hreceived⟩ := ih (st.addTransmitter ps)
    obtain ⟨hreceivers', hreceived'⟩ := st.addTransmitter_same ps
    exact ⟨hreceivers.trans hreceivers', hreceived.trans hreceived'⟩

end transmitters

end Stats

/-- A poll adds the same to both counters, and to both sizes. -/
def Tallies {ρ : Type} [Counters ρ] (getBurst : ρ → List RxMbuf → World → ρ × World) : Prop :=
  ∀ rp delivered w, ∃ x, Counters.meter (getBurst rp delivered w).1 =
    ⟨(Counters.meter rp).all + x, (Counters.meter rp).interval + x⟩

namespace Monitored

variable {ι τ ρ σ : Type} [DecidableEq ι] [DecidableEq τ] [Counters ρ] [Counters σ]

/-- The pollers and the received totals, as a collector. -/
def receiving (s : Monitored ι τ ρ σ) : Collector ι (JLong × JLong) where
  meter i := Counters.meter (s.pollers i)
  enrolled := (s.stats.elim [] Stats.receivers).toFinset
  total := s.stats.elim 0 Stats.received

section steps
variable {s s' : Monitored ι τ ρ σ}

omit [DecidableEq τ] [Counters σ] in
/-- A call that at most adds to the list of receivers enrolls them. -/
theorem step_of_enrolled (is : Finset ι) (hpollers : s'.pollers = s.pollers)
    (henrolled : s'.receiving.enrolled = s.receiving.enrolled ∪ is)
    (htotal : s'.receiving.total = s.receiving.total) :
    Collector.Step s.receiving s'.receiving := by
  have henroll : s'.receiving = s.receiving.enroll is := by
    ext1
    · simp only [receiving, Collector.enroll, hpollers]
    · exact henrolled
    · exact htotal
  rw [henroll]
  exact Collector.Step.enroll _ is

omit [DecidableEq τ] [Counters σ] in
/-- The same for a call on the statistics object alone. -/
theorem step_of_registered {st st' : Stats ι τ} (hstats : s.stats = some st) (is : Finset ι)
    (hreceivers : st'.receivers.toFinset = st.receivers.toFinset ∪ is)
    (hreceived : st'.received = st.received) :
    Collector.Step s.receiving { s with stats := some st' }.receiving := by
  refine step_of_enrolled is (by rfl) ?_ ?_
  · simp only [receiving, hstats, Option.elim_some]
    exact hreceivers
  · simp only [receiving, hstats, Option.elim_some]
    exact hreceived

variable {getBurst : ρ → List RxMbuf → World → ρ × World}
  {sendPacket : σ → Packet → World → σ × World}

/-- A burst is counted by the meter of its poller. -/
theorem exec_getBurst_receiving (htallies : Tallies getBurst) {i : ι} {delivered : List RxMbuf}
    (h : s.exec getBurst sendPacket (.getBurst i delivered) = some s') :
    ∃ x, s'.receiving = s.receiving.count i x := by
  rw [exec, Option.some.injEq] at h
  obtain ⟨x, hx⟩ := htallies (s.pollers i) delivered s.world
  refine ⟨x, ?_⟩
  rw [← h]
  ext1
  · funext j
    by_cases hji : j = i
    · subst hji
      simp only [receiving, Collector.count, Function.update_self]
      exact hx
    · simp only [receiving, Collector.count, Function.update_of_ne hji]
  · rfl
  · rfl

/-- The collecting part of the thread reads and resets the meters it knows. -/
theorem exec_collect_receiving (hresets : Counters.Resets ρ)
    (h : s.exec getBurst sendPacket .collect = some s') :
    s'.receiving = s.receiving.collect := by
  obtain ⟨st, hstats, rfl⟩ := Option.map_eq_some_iff.mp h
  ext1
  · funext j
    have hmeter := collectLoop_meter hresets st.receivers 0 0 s.pollers j
    simp only [receiving, Collector.collect, hstats, Option.elim_some, List.mem_toFinset]
    exact hmeter
  · simp only [receiving, Collector.collect, hstats, Option.elim_some]
    rfl
  · have hsum := collectLoop_sum hresets st.receivers 0 0 s.pollers
    have hzero : ((0, 0) : JLong × JLong) = 0 := rfl
    rw [hzero, zero_add] at hsum
    simp only [receiving, Collector.collect, hstats, Option.elim_some]
    exact congrArg (st.received + ·) hsum

/-- **Refinement**: every call is a step of the collector. -/
theorem exec_receiving (hresets : Counters.Resets ρ) (htallies : Tallies getBurst)
    {c : MonitorCall ι τ} (h : s.exec getBurst sendPacket c = some s') :
    Collector.Step s.receiving s'.receiving := by
  cases c with
  | construct receivers transmitters repeat_delay gui =>
    -- making the object enrolls the pollers of its list
    obtain ⟨hnone, rfl⟩ := exec_construct h
    refine step_of_enrolled receivers.toFinset (by rfl) ?_ ?_
    · rw [receiving, receiving, hnone]
      exact (Finset.empty_union _).symm
    · rw [receiving, receiving, hnone]
      rfl
  | getBurst i delivered =>
    obtain ⟨x, hcount⟩ := exec_getBurst_receiving htallies h
    rw [hcount]
    exact Collector.Step.count _ i x
  | sendPacket t p =>
    -- nobody is enrolled, so this is the step that enrolls no one
    rw [exec, Option.some.injEq] at h
    rw [← h]
    exact step_of_enrolled ∅ (by rfl) (Finset.union_empty _).symm (by rfl)
  | addReceiver i =>
    obtain ⟨st, hstats, rfl⟩ := Option.map_eq_some_iff.mp h
    exact step_of_registered hstats {i} (st.addReceiver_toFinset i) (st.addReceiver_received i)
  | addReceivers list =>
    obtain ⟨st, hstats, rfl⟩ := Option.map_eq_some_iff.mp h
    exact step_of_registered hstats list.toFinset (st.addReceivers_toFinset list)
      (st.addReceivers_received list)
  | addTransmitter t =>
    obtain ⟨st, hstats, rfl⟩ := Option.map_eq_some_iff.mp h
    obtain ⟨hreceivers, hreceived⟩ := st.addTransmitter_same t
    exact step_of_registered hstats ∅ (by rw [hreceivers, Finset.union_empty]) hreceived
  | addTransmitters list =>
    obtain ⟨st, hstats, rfl⟩ := Option.map_eq_some_iff.mp h
    obtain ⟨hreceivers, hreceived⟩ := st.addTransmitters_same list
    exact step_of_registered hstats ∅ (by rw [hreceivers, Finset.union_empty]) hreceived
  | collect =>
    rw [exec_collect_receiving hresets h]
    exact Collector.Step.collect _

end steps

end Monitored

/-- A collector that knows no meter is balanced if none was ever read. -/
theorem receiving_init_balanced {ι τ ρ σ : Type} [DecidableEq ι] [Counters ρ]
    {s : Monitored ι τ ρ σ} (hnew : ∀ i, Counters.meter (s.pollers i) = ⟨0, 0⟩)
    (hstats : s.stats = none) : s.receiving.Balanced := by
  constructor
  · rw [Monitored.receiving, hstats]
    exact add_zero 0
  · intro i _
    show (Counters.meter (s.pollers i)).interval = (Counters.meter (s.pollers i)).all
    rw [hnew i]

namespace DpdkJava

theorem ReceivePoller.resets : Counters.Resets ReceivePoller := fun _ => rfl

/-- A poll, or a part of one, adds the same to `packet_all` and
    `packet_interval`, and the same to the two sizes. -/
def ReceivePoller.Adds (rp rp' : ReceivePoller) : Prop :=
  ∃ x, Counters.meter rp' = ⟨(Counters.meter rp).all + x, (Counters.meter rp).interval + x⟩

theorem ReceivePoller.Adds.refl (rp : ReceivePoller) : rp.Adds rp := by
  refine ⟨0, ?_⟩
  rw [add_zero, add_zero]

theorem ReceivePoller.Adds.trans {rp₁ rp₂ rp₃ : ReceivePoller} (h : rp₁.Adds rp₂)
    (h' : rp₂.Adds rp₃) : rp₁.Adds rp₃ := by
  obtain ⟨x, hx⟩ := h
  obtain ⟨y, hy⟩ := h'
  refine ⟨x + y, ?_⟩
  rw [hy, hx, add_assoc, add_assoc]

/-- One pass of the loop reads the length twice, from the same memory. -/
theorem ReceivePoller.addPacket_adds (temp : JLong) (i : Nat) (rp : ReceivePoller) (w : World) :
    rp.Adds (addPacket temp i rp w).1 := by
  obtain ⟨p, ua, ua', w₁, w₂, hall, hinterval, hw₁, hw₂⟩ : ∃ p ua ua' w₁ w₂,
      (addPacket temp i rp w).1.packet_all_size =
        rp.packet_all_size + (Ipv4Packet.getLength p ua w₁).1.signExtend 64 ∧
      (addPacket temp i rp w).1.packet_interval_size =
        rp.packet_interval_size + (Ipv4Packet.getLength p ua' w₂).1.signExtend 64 ∧
      w₁.mem = w.mem ∧ w₂.mem = w.mem :=
    ⟨_, _, _, _, _, rfl, rfl, rfl, rfl⟩
  have hlength : (Ipv4Packet.getLength p ua' w₂).1 = (Ipv4Packet.getLength p ua w₁).1 := by
    rw [Ipv4Packet.getLength, Ipv4Packet.getLength, p.seek_getShort, p.seek_getShort, hw₁, hw₂]
  rw [hlength] at hinterval
  -- the packet itself was counted before the loop
  have hcount : (addPacket temp i rp w).1.packet_all = rp.packet_all + 0 := (add_zero _).symm
  have hcount' : (addPacket temp i rp w).1.packet_interval = rp.packet_interval + 0 :=
    (add_zero _).symm
  refine ⟨(0, (Ipv4Packet.getLength p ua w₁).1.signExtend 64), ?_⟩
  show (⟨(_, _), (_, _)⟩ : Meter (JLong × JLong)) = _
  rw [show getPacketAll (addPacket temp i rp w).1 = _ from hcount,
    show getPacketAllSize (addPacket temp i rp w).1 = _ from hall,
    show getPacketInterval (addPacket temp i rp w).1 = _ from hcount',
    show getPacketIntervalSize (addPacket temp i rp w).1 = _ from hinterval]
  rfl

theorem ReceivePoller.burstLoop_adds (temp : JLong) (n i : Nat) (rp : ReceivePoller) (w : World) :
    rp.Adds (burstLoop temp n i rp w).1 := by
  induction n generalizing i rp w with
  | zero => exact Adds.refl rp
  | succ n ih => exact (addPacket_adds temp i rp w).trans (ih (i + 1) _ _)

/-- The count of a poll, with whatever else changes. -/
theorem ReceivePoller.counted_adds (rp : ReceivePoller) (packet_count : JInt) {ua : UnsafeAccess}
    {packets : List Packet} :
    rp.Adds { rp with
      ua, packets
      packet_all := rp.packet_all + packet_count.signExtend 64
      packet_interval := rp.packet_interval + packet_count.signExtend 64 } := by
  refine ⟨(packet_count.signExtend 64, 0), ?_⟩
  have hsize : (Counters.meter rp).all + (packet_count.signExtend 64, 0) =
      (rp.packet_all + packet_count.signExtend 64, rp.packet_all_size) :=
    congrArg (Prod.mk _) (add_zero _)
  have hsize' : (Counters.meter rp).interval + (packet_count.signExtend 64, 0) =
      (rp.packet_interval + packet_count.signExtend 64, rp.packet_interval_size) :=
    congrArg (Prod.mk _) (add_zero _)
  rw [hsize, hsize']
  rfl

/-- **Step lemma** of a poll, for every burst. -/
theorem ReceivePoller.getBurst_tallies :
    Tallies fun (rp : ReceivePoller) delivered w => (rp.getBurst delivered w).2 := by
  intro rp delivered w
  show rp.Adds (rp.getBurst delivered w).2.1
  unfold getBurst
  simp only
  generalize (rp.ua.setCurrentPointer rp.mem_pointer).getShort
    (nat_receive_burst rp.mem_pointer delivered w) = read
  -- the count goes into both counters before the loop starts
  split
  · exact (counted_adds rp read.1).trans (burstLoop_adds _ _ _ _ _)
  · exact counted_adds rp read.1

/-- **Main**, receiving: whatever was called in whatever order, the received
    totals and the intervals of the registered pollers make up all that these
    have counted. -/
theorem received_conserved {ι τ : Type} [DecidableEq ι] [DecidableEq τ]
    {s : Monitored ι τ ReceivePoller PacketSender} (hs : Reachable (monitor ι τ) s)
    {st : Stats ι τ} (hstats : s.stats = some st) :
    st.received_packet_total + ∑ i ∈ st.receivers.toFinset, (s.pollers i).packet_interval =
      ∑ i ∈ st.receivers.toFinset, (s.pollers i).packet_all ∧
    st.received_packet_total_size +
        ∑ i ∈ st.receivers.toFinset, (s.pollers i).packet_interval_size =
      ∑ i ∈ st.receivers.toFinset, (s.pollers i).packet_all_size := by
  -- balance is an invariant: it holds at first, and every call is a collector step
  have hbalanced : s.receiving.Balanced := by
    refine ReachableWhile.invariant (fun s => s.receiving.Balanced) ?_ ?_ hs
    · rintro s ⟨hpollers, -, hnone, -⟩
      refine receiving_init_balanced ?_ hnone
      intro i
      obtain ⟨mem_pointer, hnew⟩ := hpollers i
      rw [hnew]
      rfl
    · intro s c s' h _ hstep
      exact h.step (s.exec_receiving ReceivePoller.resets ReceivePoller.getBurst_tallies hstep)
  -- counts and sizes are the two components of the balance
  have htotal := hbalanced.total
  rw [Monitored.receiving, hstats] at htotal
  have hfst := congrArg Prod.fst htotal
  have hsnd := congrArg Prod.snd htotal
  simp only [Option.elim_some, Prod.fst_add, Prod.snd_add, Prod.fst_sum, Prod.snd_sum] at hfst hsnd
  exact ⟨hfst, hsnd⟩

/-- One poller and one sender, both new. -/
def twoParties : Monitored Unit Unit ReceivePoller PacketSender where
  pollers _ := ReceivePoller.new 0x10000
  senders _ := (PacketSender.new 0x20000 (World.quiet fun _ => 0)).1
  stats := none
  world := World.quiet fun _ => 0

theorem twoParties_init : (monitor Unit Unit).init twoParties :=
  ⟨fun _ => ⟨_, rfl⟩, fun _ => ⟨_, _, rfl⟩, rfl, rfl⟩

/-- A poller that has received one packet is listed twice and then collected:
    the packet counts once. -/
theorem received_conserved_listed_twice : ∃ s st, Reachable (monitor Unit Unit) s ∧
    s.stats = some st ∧ st.receivers = [(), ()] ∧ st.received_packet_total = 1 ∧
    st.received_packet_total + ∑ i ∈ st.receivers.toFinset, (s.pollers i).packet_interval =
      ∑ i ∈ st.receivers.toFinset, (s.pollers i).packet_all := by
  have hpolled : Reachable (monitor Unit Unit) _ := (Reachable.init twoParties_init).step
    (a := .getBurst () [⟨0x1000, 0x2000⟩]) rfl
  have hmade : Reachable (monitor Unit Unit) _ := hpolled.step
    (a := .construct [(), ()] [] Stats.SECOND false) rfl
  have hcollected : Reachable (monitor Unit Unit) _ := hmade.step (a := .collect) rfl
  exact ⟨_, _, hcollected, rfl, rfl, by decide +kernel, (received_conserved hcollected rfl).1⟩

end DpdkJava

/-! ## Section 4: What is transmitted -/

/-- The number of mbufs handed to `dpdk_send_packets` so far. -/
def handedOver (w : World) : Nat := (presented w.nic.txBursts).length

/-- A call that a run of registered senders consists of. -/
def MonitorCall.Transmits {ι τ ρ σ : Type} (s : Monitored ι τ ρ σ) : MonitorCall ι τ → Prop
  | .sendPacket t _ => ∃ st, s.stats = some st ∧ t ∈ st.transmitters
  | .construct _ _ _ _ | .collect => True
  | _ => False

/-- The call hands mbufs to the native side, if `HandsOver` says so of its
    sender. -/
def MonitorCall.Hands {ι τ ρ σ : Type} (HandsOver : σ → World → Prop) (s : Monitored ι τ ρ σ) :
    MonitorCall ι τ → Prop
  | .sendPacket t _ => HandsOver (s.senders t) s.world
  | _ => False

/-- The test of `sendPacket`, after its packet has been counted. -/
def DpdkJava.PacketSender.HandsOver (ps : DpdkJava.PacketSender) (w : World) : Prop :=
  (ps.current_count + 1).toInt ≥ ps.burst.toInt ∨ ps.Late w

def DpdkJavaR.PacketSender.HandsOver (ps : DpdkJavaR.PacketSender) (_w : World) : Prop :=
  ps.list.current_size + 1 = ps.burst

namespace Monitored

variable {ι τ ρ σ : Type} [DecidableEq τ] [Counters σ]

/-- The transmitted total and the intervals of the registered senders make up
    the number of mbufs handed over. -/
def Accounts (s : Monitored ι τ ρ σ) : Prop :=
  ∀ st, s.stats = some st →
    (st.transmitted_packet_total +
      ∑ t ∈ st.transmitters.toFinset, getPacketInterval (s.senders t)).toNat = handedOver s.world

/-- No sender has counted anything, and nothing was collected. -/
structure Idle (Ready : σ → Prop) (s : Monitored ι τ ρ σ) : Prop where
  ready : ∀ t, Ready (s.senders t)
  interval : ∀ t, (Counters.meter (s.senders t)).interval = 0
  total : ∀ st, s.stats = some st → st.transmitted_packet_total = 0

/-- While nothing is counted, the account is right if nothing is handed over. -/
theorem Idle.accounts_iff {Ready : σ → Prop} {s : Monitored ι τ ρ σ} (h : s.Idle Ready)
    {st : Stats ι τ} (hstats : s.stats = some st) : s.Accounts ↔ handedOver s.world = 0 := by
  have hsum : ∑ t ∈ st.transmitters.toFinset, getPacketInterval (s.senders t) = 0 := by
    apply Finset.sum_eq_zero
    intro t _
    exact congrArg Prod.fst (h.interval t)
  have haccount : (st.transmitted_packet_total +
      ∑ t ∈ st.transmitters.toFinset, getPacketInterval (s.senders t)).toNat = 0 := by
    rw [hsum, add_zero, h.total st hstats]
    rfl
  constructor
  · intro haccounts
    rw [← haccounts st hstats, haccount]
  · intro hnone st' hstats'
    rw [hstats, Option.some.injEq] at hstats'
    rw [← hstats', haccount, hnone]

end Monitored

/-- What `sendPacket` does to the statistics and to the NIC. -/
structure SenderLaws {σ : Type} [Counters σ] (sendPacket : σ → Packet → World → σ × World)
    (Ready : σ → Prop) (HandsOver : σ → World → Prop) : Prop where
  meter : ∀ s p w, Counters.meter (sendPacket s p w).1 = Counters.meter s
  ready : ∀ s p w, Ready s → Ready (sendPacket s p w).1
  reset : ∀ s, Ready s → Ready (resetInterval s)
  waits : ∀ s p w, Ready s → ¬ HandsOver s w → handedOver (sendPacket s p w).2 = handedOver w
  hands : ∀ s p w, Ready s → HandsOver s w → handedOver w < handedOver (sendPacket s p w).2

/-- What a reset keeps, the loop keeps. -/
theorem collectLoop_forall {κ α : Type} [DecidableEq κ] [Counters α] {P : α → Prop}
    (hreset : ∀ x, P x → P (resetInterval x)) (list : List κ) (interval interval_size : JLong)
    (objects : κ → α) (h : ∀ k, P (objects k)) (k : κ) :
    P ((Stats.collectLoop list interval interval_size objects).2.2 k) := by
  induction list generalizing interval interval_size objects with
  | nil => exact h k
  | cons j list ih =>
    apply ih
    refine (Function.forall_update_iff objects fun _ x => P x).mpr ⟨?_, ?_⟩
    · exact hreset _ (h j)
    · exact fun i _ => h i

section transmitting
variable {ι τ ρ σ : Type} [DecidableEq ι] [DecidableEq τ] [Counters ρ] [Counters σ]
  {getBurst : ρ → List RxMbuf → World → ρ × World} {sendPacket : σ → Packet → World → σ × World}
  {Ready : σ → Prop} {HandsOver : σ → World → Prop} (hlaws : SenderLaws sendPacket Ready HandsOver)
  (hresets : Counters.Resets σ)
include hlaws hresets

/-- **Step lemma**: no call of the senders counts anything. -/
theorem Monitored.Idle.exec {s s' : Monitored ι τ ρ σ} {c : MonitorCall ι τ} (h : s.Idle Ready)
    (hcall : c.Transmits s) (hexec : s.exec getBurst sendPacket c = some s') : s'.Idle Ready := by
  cases c with
  | construct receivers transmitters repeat_delay gui =>
    obtain ⟨-, rfl⟩ := Monitored.exec_construct hexec
    refine ⟨h.ready, h.interval, ?_⟩
    intro st hst
    rw [← Option.some.inj hst]
    rfl
  | sendPacket t p =>
    rw [Monitored.exec, Option.some.injEq] at hexec
    rw [← hexec]
    -- the sender of the call is the only one that changes
    refine ⟨?_, ?_, h.total⟩
    · refine (Function.forall_update_iff s.senders fun _ ps => Ready ps).mpr ⟨?_, ?_⟩
      · exact hlaws.ready _ p s.world (h.ready t)
      · exact fun t' _ => h.ready t'
    · refine (Function.forall_update_iff s.senders
        fun _ ps => (Counters.meter ps).interval = 0).mpr ⟨?_, ?_⟩
      · rw [hlaws.meter]
        exact h.interval t
      · exact fun t' _ => h.interval t'
  | collect =>
    obtain ⟨st, hstats, rfl⟩ := Option.map_eq_some_iff.mp hexec
    refine ⟨collectLoop_forall hlaws.reset st.transmitters 0 0 s.senders h.ready, ?_, ?_⟩
    · intro t
      show (Counters.meter ((Stats.collectLoop st.transmitters 0 0 s.senders).2.2 t)).interval = 0
      rw [collectLoop_meter hresets]
      split
      · rfl
      · exact h.interval t
    · -- a total of zero, and zeros added to it
      intro st' hst'
      have hsum := collectLoop_sum hresets st.transmitters 0 0 s.senders
      rw [Finset.sum_eq_zero fun t _ => h.interval t, add_zero] at hsum
      have hloop : (Stats.collectLoop st.transmitters 0 0 s.senders).1 = 0 :=
        congrArg Prod.fst hsum
      rw [← Option.some.inj hst']
      show st.transmitted_packet_total + (Stats.collectLoop st.transmitters 0 0 s.senders).1 = 0
      rw [hloop, h.total st hstats]
      rfl
  | _ => exact hcall.elim

omit hresets in
/-- A call hands something over exactly when it says so. -/
theorem handedOver_exec {s s' : Monitored ι τ ρ σ} {c : MonitorCall ι τ} (h : s.Idle Ready)
    (hcall : c.Transmits s) (hexec : s.exec getBurst sendPacket c = some s') :
    (¬ c.Hands HandsOver s → handedOver s'.world = handedOver s.world) ∧
    (c.Hands HandsOver s → handedOver s.world < handedOver s'.world) := by
  cases c with
  | construct receivers transmitters repeat_delay gui =>
    obtain ⟨-, rfl⟩ := Monitored.exec_construct hexec
    exact ⟨fun _ => rfl, False.elim⟩
  | sendPacket t p =>
    rw [Monitored.exec, Option.some.injEq] at hexec
    rw [← hexec]
    exact ⟨fun hnot => hlaws.waits _ p s.world (h.ready t) hnot,
      fun hhands => hlaws.hands _ p s.world (h.ready t) hhands⟩
  | collect =>
    obtain ⟨st, hstats, rfl⟩ := Option.map_eq_some_iff.mp hexec
    exact ⟨fun _ => rfl, False.elim⟩
  | _ => exact hcall.elim

/-- The runs of registered senders in which nothing is handed over. -/
def Withholds (HandsOver : σ → World → Prop) (s : Monitored ι τ ρ σ) (c : MonitorCall ι τ) : Prop :=
  c.Transmits s ∧ ¬ c.Hands HandsOver s

/-- **Run lemma**: in such a run nothing is ever counted or handed over. -/
theorem withholds_idle {NewPoller : ρ → Prop} {NewSender : σ → Prop}
    (hnew : ∀ ps, NewSender ps → Ready ps ∧ Counters.meter ps = ⟨0, 0⟩) {s : Monitored ι τ ρ σ}
    (hs : ReachableWhile (monitor NewPoller NewSender getBurst sendPacket)
      (Withholds HandsOver) s) :
    s.Idle Ready ∧ handedOver s.world = 0 := by
  refine ReachableWhile.invariant (fun s => s.Idle Ready ∧ handedOver s.world = 0) ?_ ?_ hs
  · -- new senders have counted nothing, and the NIC has seen nothing
    rintro s ⟨-, hsenders, hstats, hbursts⟩
    refine ⟨⟨fun t => (hnew _ (hsenders t)).1, ?_, ?_⟩, ?_⟩
    · intro t
      rw [(hnew _ (hsenders t)).2]
    · intro st hst
      rw [hstats] at hst
      exact absurd hst nofun
    · rw [handedOver, hbursts]
      rfl
  · rintro s c s' ⟨hidle, hnone⟩ ⟨hcall, hnot⟩ hstep
    refine ⟨hidle.exec hlaws hresets hcall hstep, ?_⟩
    rw [(handedOver_exec hlaws hidle hcall hstep).1 hnot, hnone]

/-- The account is right until something is handed over, and wrong then. -/
theorem accounts_until_handedOver {NewPoller : ρ → Prop} {NewSender : σ → Prop}
    (hnew : ∀ ps, NewSender ps → Ready ps ∧ Counters.meter ps = ⟨0, 0⟩) {s : Monitored ι τ ρ σ}
    (hs : ReachableWhile (monitor NewPoller NewSender getBurst sendPacket)
      (Withholds HandsOver) s) :
    s.Accounts ∧ ∀ c s', c.Transmits s → c.Hands HandsOver s →
      s.exec getBurst sendPacket c = some s' → ¬ s'.Accounts := by
  obtain ⟨hidle, hnone⟩ := withholds_idle hlaws hresets hnew hs
  constructor
  · intro st hstats
    exact (hidle.accounts_iff hstats).mpr hnone st hstats
  · intro c s' hcall hhands hexec
    have hidle' := hidle.exec hlaws hresets hcall hexec
    have hmore := (handedOver_exec hlaws hidle hcall hexec).2 hhands
    -- only `sendPacket` hands anything over, and it keeps the `Stats` object
    cases c with
    | sendPacket t p =>
      obtain ⟨st, hstats, -⟩ := hcall
      rw [Monitored.exec, Option.some.injEq] at hexec
      have hstats' : s'.stats = some st := by
        rw [← hexec]
        exact hstats
      rw [hidle'.accounts_iff hstats']
      omega
    | _ => exact hhands.elim

end transmitting

/-! ### The senders -/

theorem handedOver_transmit {held : List Mbuf} {m : Mbuf} {w w' : World}
    (hnic : w'.nic = Nic.transmit (held ++ [m]) w.nic) : handedOver w < handedOver w' := by
  have hlen : handedOver w' = handedOver w + (held ++ [m]).length := by
    rw [handedOver, hnic, Nic.transmit, presented_append, List.length_append]
    simp [presented, handedOver]
  rw [hlen, List.length_append, List.length_singleton]
  omega

theorem handedOver_congr {w w' : World} (hnic : w'.nic = w.nic) : handedOver w' = handedOver w := by
  rw [handedOver, hnic, handedOver]

namespace DpdkJava

/-- A sender between two calls. What its buffer holds does not matter here. -/
structure PacketSender.Ready (ps : PacketSender) : Prop where
  burst : ps.burst = 32
  mbuf_pointer : ps.mbuf_pointer = cell ps.start_pointer 2
  count : ps.current_count.toNat < 32

theorem PacketSender.Ready.holds {ps : PacketSender} (h : ps.Ready) (m : Memory 64) :
    ps.Holds m (ps.pending m) := by
  have hlen : (ps.pending m).length = ps.current_count.toNat := wordsAt_length _ _ _
  -- the buffer holds whatever its first words are
  refine ⟨⟨⟨?_, h.mbuf_pointer, ?_⟩, h.burst⟩, ?_⟩
  · rw [hlen, BitVec.ofNat_toNat, BitVec.setWidth_eq]
  · rw [hlen]
    rfl
  · rw [hlen]
    exact h.count

theorem PacketSender.Holds.ready {ps : PacketSender} {m : Memory 64} {held : List Mbuf}
    (h : ps.Holds m held) : ps.Ready := by
  have hlen := h.2
  refine ⟨h.1.burst, h.1.mbuf_pointer, ?_⟩
  rw [h.1.count, BitVec.toNat_ofNat]
  omega

/-- The test of the source, for a sender that holds `held`. -/
theorem PacketSender.Holds.handsOver_iff {ps : PacketSender} {w : World} {held : List Mbuf}
    (h : ps.Holds w.mem held) : ps.HandsOver w ↔ ps.Flushes w held := by
  have hlen := h.2
  have hcount : ps.current_count + 1 = BitVec.ofNat 32 (held.length + 1) := by
    rw [h.1.count, BitVec.ofNat_add]
    rfl
  have hfull : (ps.current_count + 1).toInt ≥ ps.burst.toInt ↔ held.length + 1 = 32 := by
    rw [hcount, h.1.burst, UnsafeAccess.toInt_ofNat (by omega)]
    show _ ≥ (32 : Int) ↔ _
    omega
  exact or_congr_left (hfull.trans (BurstList.full_iff h.1.burst hlen).symm)

theorem PacketSender.sendPacket_laws : SenderLaws PacketSender.sendPacket Ready HandsOver where
  meter _ _ _ := rfl
  ready ps p w h := (sendPacket_spec (h.holds w.mem) p).1.ready
  reset _ h := ⟨h.burst, h.mbuf_pointer, h.count⟩
  waits ps p w h hnot := by
    have hdue : ¬ ps.Flushes w (ps.pending w.mem) := fun hdue =>
      hnot ((h.holds w.mem).handsOver_iff.mpr hdue)
    have hnic := (sendPacket_spec (h.holds w.mem) p).2.nic
    rw [if_neg hdue] at hnic
    exact handedOver_congr hnic
  hands ps p w h hhands := by
    have hdue := (h.holds w.mem).handsOver_iff.mp hhands
    have hnic := (sendPacket_spec (h.holds w.mem) p).2.nic
    rw [if_pos hdue] at hnic
    exact handedOver_transmit hnic

end DpdkJava

namespace DpdkJavaR

/-- A sender between two calls. What its list holds does not matter here. -/
structure PacketSender.Ready (ps : PacketSender) : Prop where
  burst : ps.burst = 16
  room : ps.list.current_size.toNat < 16
  cursor : ps.list.ua.At (cell ps.list.startPointer 2) (8 * ps.list.current_size.toNat)

theorem PacketSender.Ready.holds {ps : PacketSender} (h : ps.Ready) (m : Memory 64) :
    ps.Holds m (ps.list.mbufs m) := by
  have hlen : (ps.list.mbufs m).length = ps.list.current_size.toNat := wordsAt_length _ _ _
  refine ⟨h.burst, ?_, ?_, ?_, ?_⟩
  · rw [hlen]
    exact h.room
  · rw [hlen, BitVec.ofNat_toNat, BitVec.setWidth_eq]
  · rw [hlen]
    exact h.cursor
  · rw [hlen]
    rfl

theorem PacketSender.Holds.ready {ps : PacketSender} {m : Memory 64} {held : List Mbuf}
    (h : ps.Holds m held) : ps.Ready := by
  have hroom := h.room
  have hlen : ps.list.current_size.toNat = held.length := by
    rw [h.list.count, BitVec.toNat_ofNat]
    omega
  refine ⟨h.burst, by omega, ?_⟩
  rw [hlen]
  exact h.list.cursor

theorem PacketSender.Holds.handsOver_iff {ps : PacketSender} {w : World} {held : List Mbuf}
    (h : ps.Holds w.mem held) (p : Packet) : ps.HandsOver w ↔ held.length + 1 = 16 :=
  BurstQueue.size_eq_burst_iff h p

theorem PacketSender.sendPacket_laws : SenderLaws PacketSender.sendPacket Ready HandsOver where
  meter ps p w := rfl
  ready ps p w h := by
    obtain ⟨hbuf, -, -, -⟩ := BurstQueue.add_spec nat_send_packets_drains (h.holds w.mem)
      unrestricted p
    exact PacketSender.Holds.ready hbuf
  reset _ h := ⟨h.burst, h.room, h.cursor⟩
  waits ps p w h hnot := by
    obtain ⟨-, hnic, -, -⟩ := BurstQueue.add_spec nat_send_packets_drains (h.holds w.mem)
      unrestricted p
    rw [if_neg fun hfull => hnot (((h.holds w.mem).handsOver_iff p).mpr hfull)] at hnic
    exact handedOver_congr hnic
  hands ps p w h hhands := by
    obtain ⟨-, hnic, -, -⟩ := BurstQueue.add_spec nat_send_packets_drains (h.holds w.mem)
      unrestricted p
    rw [if_pos (((h.holds w.mem).handsOver_iff p).mp hhands)] at hnic
    exact handedOver_transmit hnic

end DpdkJavaR

/-- **Main**, transmitting: in both versions the account of a run of registered
    senders is right as long as no call hands anything over. The first call
    that does makes it wrong. -/
theorem transmitted_accounts (ι τ : Type) [DecidableEq ι] [DecidableEq τ] :
    (∀ s, ReachableWhile (DpdkJava.monitor ι τ) (Withholds DpdkJava.PacketSender.HandsOver) s →
      s.Accounts ∧ ∀ c s', c.Transmits s → c.Hands DpdkJava.PacketSender.HandsOver s →
        (DpdkJava.monitor ι τ).step s c s' → ¬ s'.Accounts) ∧
    (∀ s, ReachableWhile (DpdkJavaR.monitor ι τ) (Withholds DpdkJavaR.PacketSender.HandsOver) s →
      s.Accounts ∧ ∀ c s', c.Transmits s → c.Hands DpdkJavaR.PacketSender.HandsOver s →
        (DpdkJavaR.monitor ι τ).step s c s' → ¬ s'.Accounts) := by
  constructor
  · intro s hs
    refine accounts_until_handedOver DpdkJava.PacketSender.sendPacket_laws (fun _ => rfl) ?_ hs
    rintro ps ⟨start_pointer, w, rfl⟩
    exact ⟨(DpdkJava.PacketSender.new_holds start_pointer w).ready, rfl⟩
  · intro s hs
    refine accounts_until_handedOver DpdkJavaR.PacketSender.sendPacket_laws (fun _ => rfl) ?_ hs
    rintro ps ⟨startPointer, w, rfl⟩
    exact ⟨(DpdkJavaR.PacketSender.new_holds startPointer w).ready, rfl⟩

/-- One poller and one sender of each version, made at time 0, and a clock that
    stands still at `now`. -/
def DpdkJava.oneSender (now : JLong) :
    Monitored Unit Unit DpdkJava.ReceivePoller DpdkJava.PacketSender :=
  { DpdkJava.twoParties with
    world := World.boot (fun _ => 0) (fun _ n => Fin.last n) (fun _ => now) }

def DpdkJavaR.oneSender : Monitored Unit Unit DpdkJavaR.ReceivePoller DpdkJavaR.PacketSender where
  pollers _ := DpdkJavaR.ReceivePoller.new 0x10000
  senders _ := (DpdkJavaR.PacketSender.new 0x20000 (World.quiet fun _ => 0)).1
  stats := none
  world := World.quiet fun _ => 0

theorem DpdkJava.oneSender_init (now : JLong) :
    (DpdkJava.monitor Unit Unit).init (DpdkJava.oneSender now) :=
  ⟨fun _ => ⟨_, rfl⟩, fun _ => ⟨_, _, rfl⟩, rfl, rfl⟩

theorem DpdkJavaR.oneSender_init : (DpdkJavaR.monitor Unit Unit).init DpdkJavaR.oneSender :=
  ⟨fun _ => ⟨_, rfl⟩, fun _ => ⟨_, _, rfl⟩, rfl, rfl⟩

/-- A first packet waits, and the account is still right. -/
theorem transmitted_accounts_first_packet :
    (∃ s, ReachableWhile (DpdkJava.monitor Unit Unit) (Withholds DpdkJava.PacketSender.HandsOver)
      s ∧ s.stats ≠ none ∧ s.Accounts) ∧
    (∃ s, ReachableWhile (DpdkJavaR.monitor Unit Unit)
      (Withholds DpdkJavaR.PacketSender.HandsOver) s ∧ s.stats ≠ none ∧ s.Accounts) := by
  obtain ⟨hjava, hjavaR⟩ := transmitted_accounts Unit Unit
  constructor
  · have hmade : ReachableWhile (DpdkJava.monitor Unit Unit)
        (Withholds DpdkJava.PacketSender.HandsOver) _ :=
      (ReachableWhile.init (DpdkJava.oneSender_init 0)).step
        (a := .construct [] [()] Stats.SECOND false) ⟨trivial, id⟩ rfl
    have hsent : ReachableWhile (DpdkJava.monitor Unit Unit)
        (Withholds DpdkJava.PacketSender.HandsOver) _ :=
      hmade.step (a := .sendPacket () ⟨0x1000, 0⟩)
        ⟨⟨_, rfl, List.mem_cons_self⟩, not_or.mpr ⟨by decide, by decide⟩⟩ rfl
    exact ⟨_, hsent, nofun, (hjava _ hsent).1⟩
  · have hmade : ReachableWhile (DpdkJavaR.monitor Unit Unit)
        (Withholds DpdkJavaR.PacketSender.HandsOver) _ :=
      (ReachableWhile.init DpdkJavaR.oneSender_init).step
        (a := .construct [] [()] Stats.SECOND false) ⟨trivial, id⟩ rfl
    have hsent : ReachableWhile (DpdkJavaR.monitor Unit Unit)
        (Withholds DpdkJavaR.PacketSender.HandsOver) _ :=
      hmade.step (a := .sendPacket () ⟨0x1000, 0⟩)
        ⟨⟨_, rfl, List.mem_cons_self⟩, show ¬ (0 : JInt) + 1 = 16 by decide⟩ rfl
    exact ⟨_, hsent, nofun, (hjavaR _ hsent).1⟩

/-- A sequence of calls that all go through. -/
theorem reachable_calls {ι τ ρ σ : Type} [DecidableEq ι] [DecidableEq τ] [Counters ρ] [Counters σ]
    {NewPoller : ρ → Prop} {NewSender : σ → Prop}
    {getBurst : ρ → List RxMbuf → World → ρ × World} {sendPacket : σ → Packet → World → σ × World}
    (calls : List (MonitorCall ι τ)) {s s' : Monitored ι τ ρ σ}
    (hs : Reachable (monitor NewPoller NewSender getBurst sendPacket) s)
    (hexec : calls.foldlM (Monitored.exec getBurst sendPacket) s = some s') :
    Reachable (monitor NewPoller NewSender getBurst sendPacket) s' := by
  induction calls generalizing s with
  | nil =>
    obtain rfl : s = s' := Option.some.inj hexec
    exact hs
  | cons c calls ih =>
    rw [List.foldlM_cons] at hexec
    obtain ⟨s₁, hfirst, hrest⟩ := Option.bind_eq_some_iff.mp hexec
    exact ih (hs.step hfirst) hrest

/-- The one packet of a late call, and the 16 packets of a full list, are handed
    over and not counted. -/
theorem handedOver_not_counted :
    (∃ s st, Reachable (DpdkJava.monitor Unit Unit) s ∧ s.stats = some st ∧
      st.transmitters = [()] ∧ handedOver s.world = 1 ∧ ¬ s.Accounts) ∧
    (∃ s st, Reachable (DpdkJavaR.monitor Unit Unit) s ∧ s.stats = some st ∧
      st.transmitters = [()] ∧ handedOver s.world = 16 ∧ ¬ s.Accounts) := by
  constructor
  · have hs := reachable_calls [.construct [] [()] Stats.SECOND false,
      .sendPacket () ⟨0x1000, 0⟩] (Reachable.init (DpdkJava.oneSender_init 2000)) rfl
    refine ⟨_, _, hs, rfl, rfl, by decide +kernel, ?_⟩
    intro haccounts
    exact absurd (haccounts _ rfl) (by decide +kernel)
  · have hs := reachable_calls (.construct [] [()] Stats.SECOND false ::
      List.replicate 16 (.sendPacket () ⟨0x1000, 0⟩)) (Reachable.init DpdkJavaR.oneSender_init) rfl
    refine ⟨_, _, hs, rfl, rfl, by decide +kernel, ?_⟩
    intro haccounts
    exact absurd (haccounts _ rfl) (by decide +kernel)

end PacketPro
