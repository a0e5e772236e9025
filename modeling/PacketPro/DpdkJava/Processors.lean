import PacketPro.DpdkJava.ReceivePoller
import PacketPro.DpdkJava.BurstList
import PacketPro.Jvm.Verdict

/-! # `CaptureProcessor.java` and `FirewallProcessor.java`

    The two applications on top of `DpdkJava`. Their main loops are the same
    text: poll, then inspect every packet of the list that the poll returned.
    They differ in what `inspect` does with a packet.

    The calls of `freePacket` and `sendPacket` are recorded in the state, in
    call order. Since the poller reuses its list, a poll without packets gives
    the loop the packets of the last poll that had some; `replay` says what
    the loop hands over in terms of the bursts alone.
-/

open ByteMem

namespace PacketPro.DpdkJava

/-! ## Section 1: Definitions -/

/-- The two ways in which `inspect` lets go of a packet. -/
inductive Call where
  | freePacket (p : Packet)
  | sendPacket (p : Packet)
  deriving DecidableEq, Repr

def Call.mbuf : Call → Mbuf
  | .freePacket p => p.mbuf_pointer
  | .sendPacket p => p.mbuf_pointer

/-- A `PacketProcessor` with one sender, one freeer and one poller. -/
structure Processor where
  ps_ind : PacketSender
  pf_ind : PacketFreeer
  rp_ind : ReceivePoller
  /-- The calls made so far, oldest first. -/
  calls : List Call

namespace Processor

/-- A processor over newly constructed objects, given their buffers. -/
def new (ps_mem pf_mem rp_mem : Addr) (w : World) : Processor × World :=
  let (ps_ind, w) := PacketSender.new ps_mem w
  let (pf_ind, w) := PacketFreeer.new pf_mem w
  (⟨ps_ind, pf_ind, ReceivePoller.new rp_mem, []⟩, w)

def freePacket (s : Processor) (p : Packet) (w : World) : Processor × World :=
  let (pf_ind, w) := s.pf_ind.freePacket p w
  ({ s with pf_ind, calls := s.calls ++ [.freePacket p] }, w)

def sendPacket (s : Processor) (p : Packet) (w : World) : Processor × World :=
  let (ps_ind, w) := s.ps_ind.sendPacket p w
  ({ s with ps_ind, calls := s.calls ++ [.sendPacket p] }, w)

/-- How an application treats one packet. -/
abbrev Inspect : Type := Packet → Processor → World → Bool × Processor × World

/-- The `for` loop of `run`, which ignores what `inspect` returns. -/
def inspectAll (inspect : Inspect) : List Packet → Processor → World → Processor × World
  | [], s, w => (s, w)
  | p :: packets, s, w =>
    let (_, s, w) := inspect p s w
    inspectAll inspect packets s w

/-- One iteration of the `while` loop of `run`. -/
def iteration (inspect : Inspect) (delivered : List RxMbuf) (s : Processor) (w : World) :
    Processor × World :=
  let (packets, rp_ind, w) := s.rp_ind.getBurst delivered w
  inspectAll inspect packets { s with rp_ind } w

/-- The `while` loop of `run` over a sequence of poll results. -/
def run (inspect : Inspect) : List (List RxMbuf) → Processor → World → Processor × World
  | [], s, w => (s, w)
  | delivered :: bursts, s, w =>
    let (s, w) := iteration inspect delivered s w
    run inspect bursts s w

end Processor

namespace CaptureProcessor

def inspect : Processor.Inspect := fun currentPacket s w =>
  let (s, w) := s.freePacket currentPacket w
  (true, s, w)

def run : List (List RxMbuf) → Processor → World → Processor × World := Processor.run inspect

end CaptureProcessor

namespace FirewallProcessor

/-- All packets of a poller share its cursor, which the checks move. -/
def inspect (blacklist : Finset JLong) : Processor.Inspect := fun currentPacket s w =>
  let (send, unsafe_access, w) := PacketPro.FirewallProcessor.verdict blacklist currentPacket
    s.rp_ind.unsafe_access w
  let s := { s with rp_ind := { s.rp_ind with unsafe_access } }
  if send then
    let (s, w) := s.sendPacket currentPacket w
    (true, s, w)
  else
    let (s, w) := s.freePacket currentPacket w
    (false, s, w)

def run (blacklist : Finset JLong) : List (List RxMbuf) → Processor → World → Processor × World :=
  Processor.run (inspect blacklist)

end FirewallProcessor

/-! ## Section 2: Replaying bursts -/

section replay
variable {α : Type}

/-- What a loop hands over when an empty burst stands for the last non-empty
    one, starting with `last`. -/
def replay : List α → List (List α) → List α
  | _, [] => []
  | last, b :: bs =>
    if b = [] then last ++ replay last bs else b ++ replay b bs

theorem length_flatten_le_replay (last : List α) (bs : List (List α)) :
    bs.flatten.length ≤ (replay last bs).length := by
  induction bs generalizing last with
  | nil => simp
  | cons b bs ih =>
    by_cases hb : b = []
    · have h := ih last
      subst hb
      simp only [replay, if_true, List.flatten_cons, List.nil_append, List.length_append]
      omega
    · have h := ih b
      simp only [replay, if_neg hb, List.flatten_cons, List.length_append]
      omega

/-- Replaying loses nothing and repeats nothing exactly when no empty burst
    finds a non-empty one before it. -/
theorem replay_eq_flatten_iff (last : List α) (bs : List (List α)) :
    replay last bs = bs.flatten ↔
      (last ≠ [] → ∀ b ∈ bs, b ≠ []) ∧ bs.Pairwise (fun a b => a ≠ [] → b ≠ []) := by
  induction bs generalizing last with
  | nil => simp [replay]
  | cons b bs ih =>
    by_cases hb : b = []
    · subst hb
      by_cases hlast : last = []
      · -- nothing to replay yet
        subst hlast
        simp only [replay, if_pos, List.nil_append, List.flatten_cons, ih [], List.pairwise_cons]
        simp
      · -- the replayed burst is one too many: lengths tell
        have hlen := length_flatten_le_replay last bs
        have hpos : 0 < last.length := List.length_pos_iff.mpr hlast
        constructor
        · intro h
          have := congrArg List.length h
          simp only [replay, if_pos, List.length_append, List.flatten_cons, List.nil_append] at this
          omega
        · rintro ⟨h, -⟩
          exact absurd rfl (h hlast [] (List.mem_cons_self ..))
    · simp only [replay, if_neg hb, List.flatten_cons, List.append_cancel_left_eq, ih b,
        List.pairwise_cons, List.mem_cons, forall_eq_or_imp]
      constructor
      · rintro ⟨hall, hpair⟩
        exact ⟨fun _ => ⟨hb, hall hb⟩, fun b' hb' _ => hall hb b' hb', hpair⟩
      · rintro ⟨-, hall, hpair⟩
        exact ⟨fun _ b' hb' => hall b' hb' hb, hpair⟩

end replay

/-! ## Section 3: Every run -/

/-- `inspect` makes exactly one call, for the packet it is given, and leaves
    the list of the poller alone. -/
def OneCall (inspect : Processor.Inspect) : Prop :=
  ∀ p s w,
    (inspect p s w).2.1.calls.map Call.mbuf = s.calls.map Call.mbuf ++ [p.mbuf_pointer] ∧
    (inspect p s w).2.1.rp_ind.packets = s.rp_ind.packets

theorem CaptureProcessor.inspect_oneCall : OneCall CaptureProcessor.inspect := by
  intro p s w
  exact ⟨List.map_append, rfl⟩

theorem FirewallProcessor.inspect_oneCall (blacklist : Finset JLong) :
    OneCall (FirewallProcessor.inspect blacklist) := by
  intro p s w
  unfold FirewallProcessor.inspect
  by_cases hsend : (PacketPro.FirewallProcessor.verdict blacklist p
      s.rp_ind.unsafe_access w).1
  · simp only [if_pos hsend]
    exact ⟨List.map_append, rfl⟩
  · simp only [if_neg hsend]
    exact ⟨List.map_append, rfl⟩

section runs
variable {inspect : Processor.Inspect} (hone : OneCall inspect)
include hone

theorem inspectAll_calls (packets : List Packet) (s : Processor) (w : World) :
    (Processor.inspectAll inspect packets s w).1.calls.map Call.mbuf =
      s.calls.map Call.mbuf ++ packets.map Packet.mbuf_pointer ∧
    (Processor.inspectAll inspect packets s w).1.rp_ind.packets = s.rp_ind.packets := by
  induction packets generalizing s w with
  | nil => simp [Processor.inspectAll]
  | cons p packets ih =>
    obtain ⟨hcalls, hpackets⟩ := hone p s w
    obtain ⟨ihcalls, ihpackets⟩ := ih (inspect p s w).2.1 (inspect p s w).2.2
    refine ⟨?_, ihpackets.trans hpackets⟩
    rw [Processor.inspectAll]
    refine ihcalls.trans ?_
    rw [hcalls]
    simp

/-- One iteration: an empty poll inspects the packets of an earlier one. -/
theorem iteration_calls (delivered : List RxMbuf) (hlen : delivered.length < 2 ^ 16)
    (s : Processor) (w : World) :
    let packets := if delivered = [] then s.rp_ind.packets else delivered.map RxMbuf.packet
    (Processor.iteration inspect delivered s w).1.calls.map Call.mbuf =
      s.calls.map Call.mbuf ++ packets.map Packet.mbuf_pointer ∧
    (Processor.iteration inspect delivered s w).1.rp_ind.packets = packets := by
  obtain ⟨hcalls, hpackets⟩ := inspectAll_calls hone (s.rp_ind.getBurst delivered w).1
    { s with rp_ind := (s.rp_ind.getBurst delivered w).2.1 } (s.rp_ind.getBurst delivered w).2.2
  by_cases hnil : delivered = []
  · -- an empty poll returns the packets of the one before it
    obtain ⟨hlist, hkept, -⟩ := s.rp_ind.getBurst_nil w
    subst hnil
    simp only [if_true]
    refine ⟨hcalls.trans ?_, hpackets.trans hkept⟩
    rw [hlist]
  · obtain ⟨hlist, hkept, -⟩ := s.rp_ind.getBurst_cons delivered w hlen hnil
    simp only [if_neg hnil]
    refine ⟨hcalls.trans ?_, hpackets.trans hkept⟩
    rw [hlist]

/-- **Run lemma**: the calls of a run are the replayed bursts. -/
theorem run_calls (bursts : List (List RxMbuf)) (hlen : ∀ b ∈ bursts, b.length < 2 ^ 16)
    (s : Processor) (w : World) :
    (Processor.run inspect bursts s w).1.calls.map Call.mbuf =
      s.calls.map Call.mbuf ++
        replay (s.rp_ind.packets.map Packet.mbuf_pointer) (bursts.map (List.map RxMbuf.mbuf)) := by
  induction bursts generalizing s w with
  | nil => simp [Processor.run, replay]
  | cons delivered bursts ih =>
    obtain ⟨hcalls, hpackets⟩ :=
      iteration_calls hone delivered (hlen _ (List.mem_cons_self ..)) s w
    have hrest := ih (fun b hb => hlen b (List.mem_cons_of_mem _ hb))
      (Processor.iteration inspect delivered s w).1 (Processor.iteration inspect delivered s w).2
    rw [hcalls, hpackets] at hrest
    -- an empty poll leaves the old list in place, a non-empty one replaces it
    refine hrest.trans ?_
    rw [List.append_assoc]
    by_cases hnil : delivered = []
    · simp only [hnil, if_pos, List.map_cons, List.map_nil, replay]
    · have hmbufs : (delivered.map RxMbuf.packet).map Packet.mbuf_pointer =
          delivered.map RxMbuf.mbuf := by
        rw [List.map_map]
        rfl
      have hne : delivered.map RxMbuf.mbuf ≠ [] := by simpa using hnil
      simp only [if_neg hnil, hmbufs, List.map_cons, replay, if_neg hne]

/-- A run over newly constructed objects hands over the delivered mbufs, each
    once and in order, exactly when no empty poll follows a non-empty one. -/
theorem run_calls_iff (bursts : List (List RxMbuf)) (hlen : ∀ b ∈ bursts, b.length < 2 ^ 16)
    (ps_mem pf_mem rp_mem : Addr) (w : World) :
    (Processor.run inspect bursts (Processor.new ps_mem pf_mem rp_mem w).1
        (Processor.new ps_mem pf_mem rp_mem w).2).1.calls.map Call.mbuf =
      bursts.flatten.map RxMbuf.mbuf ↔
    bursts.Pairwise (fun a b => a ≠ [] → b ≠ []) := by
  have hrun := run_calls hone bursts hlen (Processor.new ps_mem pf_mem rp_mem w).1
    (Processor.new ps_mem pf_mem rp_mem w).2
  -- a new poller has no packets to repeat
  have hstart : replay ((Processor.new ps_mem pf_mem rp_mem w).1.rp_ind.packets.map
      Packet.mbuf_pointer) = replay ([] : List Mbuf) := rfl
  have hempty : (Processor.new ps_mem pf_mem rp_mem w).1.calls.map Call.mbuf = [] := rfl
  rw [hrun, hstart, hempty, List.nil_append, List.map_flatten, replay_eq_flatten_iff,
    List.pairwise_map]
  simp

end runs

/-- The mbufs handed over by a run of the capture application. -/
def CaptureProcessor.handedOver (bursts : List (List RxMbuf)) (ps_mem pf_mem rp_mem : Addr)
    (w : World) : List Mbuf :=
  let (s, w) := Processor.new ps_mem pf_mem rp_mem w
  (CaptureProcessor.run bursts s w).1.calls.map Call.mbuf

/-- The mbufs handed over by a run of the firewall application. -/
def FirewallProcessor.handedOver (blacklist : Finset JLong) (bursts : List (List RxMbuf))
    (ps_mem pf_mem rp_mem : Addr) (w : World) : List Mbuf :=
  let (s, w) := Processor.new ps_mem pf_mem rp_mem w
  (FirewallProcessor.run blacklist bursts s w).1.calls.map Call.mbuf

/-- **Main**: both applications hand over every delivered mbuf exactly once,
    in order, if and only if no empty poll comes after a non-empty one. -/
theorem handedOver_eq_delivered_iff (blacklist : Finset JLong) (bursts : List (List RxMbuf))
    (hlen : ∀ b ∈ bursts, b.length ≤ 32) (ps_mem pf_mem rp_mem : Addr) (w : World) :
    (CaptureProcessor.handedOver bursts ps_mem pf_mem rp_mem w =
        bursts.flatten.map RxMbuf.mbuf ↔
      bursts.Pairwise (fun a b => a ≠ [] → b ≠ [])) ∧
    (FirewallProcessor.handedOver blacklist bursts ps_mem pf_mem rp_mem w =
        bursts.flatten.map RxMbuf.mbuf ↔
      bursts.Pairwise (fun a b => a ≠ [] → b ≠ [])) := by
  have hlen' : ∀ b ∈ bursts, b.length < 2 ^ 16 := by
    intro b hb
    exact Nat.lt_of_le_of_lt (hlen b hb) (by decide)
  constructor
  · exact run_calls_iff CaptureProcessor.inspect_oneCall bursts hlen' ps_mem pf_mem rp_mem w
  · exact run_calls_iff (FirewallProcessor.inspect_oneCall blacklist) bursts hlen' ps_mem pf_mem
      rp_mem w

/-- Two polls with a packet each: nothing is lost or repeated. -/
theorem handedOver_two_full_polls :
    (∀ b ∈ ([[⟨0x1000, 0x2000⟩], [⟨0x1800, 0x3000⟩]] : List (List RxMbuf)), b.length ≤ 32) ∧
    CaptureProcessor.handedOver [[⟨0x1000, 0x2000⟩], [⟨0x1800, 0x3000⟩]] 0x100 0x300 0x500
      (World.quiet fun _ => 0) = [0x1000, 0x1800] ∧
    FirewallProcessor.handedOver ∅ [[⟨0x1000, 0x2000⟩], [⟨0x1800, 0x3000⟩]] 0x100 0x300 0x500
      (World.quiet fun _ => 0) = [0x1000, 0x1800] := by
  have hlen : ∀ b ∈ ([[⟨0x1000, 0x2000⟩], [⟨0x1800, 0x3000⟩]] : List (List RxMbuf)),
      b.length ≤ 32 := by decide
  obtain ⟨hcapture, hfirewall⟩ :=
    handedOver_eq_delivered_iff ∅ _ hlen 0x100 0x300 0x500 (World.quiet fun _ => 0)
  exact ⟨hlen, hcapture.mpr (by decide), hfirewall.mpr (by decide)⟩

/-- One packet, then an empty poll: the packet is handed over twice, by both
    applications. -/
theorem handedOver_repeats_after_empty_poll :
    (CaptureProcessor.handedOver [[⟨0x1000, 0x2000⟩], []] 0x100 0x300 0x500
        (World.quiet fun _ => 0) = [0x1000, 0x1000] ∧
      FirewallProcessor.handedOver ∅ [[⟨0x1000, 0x2000⟩], []] 0x100 0x300 0x500
        (World.quiet fun _ => 0) = [0x1000, 0x1000]) ∧
    ¬ (∀ (blacklist : Finset JLong) (bursts : List (List RxMbuf)),
      (∀ b ∈ bursts, b.length ≤ 32) → ∀ (ps_mem pf_mem rp_mem : Addr) (w : World),
        CaptureProcessor.handedOver bursts ps_mem pf_mem rp_mem w =
          bursts.flatten.map RxMbuf.mbuf ∧
        FirewallProcessor.handedOver blacklist bursts ps_mem pf_mem rp_mem w =
          bursts.flatten.map RxMbuf.mbuf) := by
  have hcapture := run_calls CaptureProcessor.inspect_oneCall [[⟨0x1000, 0x2000⟩], []]
    (by decide) (Processor.new 0x100 0x300 0x500 (World.quiet fun _ => 0)).1
    (Processor.new 0x100 0x300 0x500 (World.quiet fun _ => 0)).2
  have hfirewall := run_calls (FirewallProcessor.inspect_oneCall ∅) [[⟨0x1000, 0x2000⟩], []]
    (by decide) (Processor.new 0x100 0x300 0x500 (World.quiet fun _ => 0)).1
    (Processor.new 0x100 0x300 0x500 (World.quiet fun _ => 0)).2
  refine ⟨⟨hcapture, hfirewall⟩, ?_⟩
  intro hall
  obtain ⟨h, -⟩ := hall ∅ [[⟨0x1000, 0x2000⟩], []] (by decide) 0x100 0x300 0x500
    (World.quiet fun _ => 0)
  have htwice := hcapture.symm.trans h
  exact absurd htwice (by decide)

end PacketPro.DpdkJava
