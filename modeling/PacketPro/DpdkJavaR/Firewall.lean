import PacketPro.DpdkJavaR.PacketListCreate
import PacketPro.DpdkJavaR.PacketList
import PacketPro.Jvm.Verdict
import Mathlib.Tactic.Tauto

/-! # `DpdkJava-R/FirewallProcessor.java`: Packet Conservation

    The firewall on top of the second version of the framework: poll, iterate
    the list in place, send or free each packet.

    **Conservation** (`run_conserved`): at every point between two packets,
    what was sent and what waits to be sent are the received packets that pass
    the filter, in order; what was freed and what waits to be freed are the
    others, in order; every batch has 16 mbufs; and the program has touched
    nothing but its three buffers and, reading, the packet headers. (What DPDK
    itself reads and writes, and the loads from `struct rte_mbuf` that
    `rte_pktmbuf_mtod` makes in a poll, are not in the log.)

    The proof links each native buffer to a batching queue. The link is kept
    by `inspect` (step lemma), so by a burst (loop rule), so by a run.
-/

open ByteMem Batching

namespace PacketPro.DpdkJavaR

/-! ## Section 1: Definitions -/

/-- The objects that `inspect` hands packets to. -/
structure Handlers where
  ps_ind : PacketSender
  pf_ind : PacketFreeer

structure Processor extends Handlers where
  rp_ind : ReceivePoller

namespace FirewallProcessor

def inspect (blacklist : Finset JLong) (currentPacket : Packet) (ua : UnsafeAccess) (s : Handlers)
    (w : World) : Bool × UnsafeAccess × Handlers × World :=
  let (send, ua, w) := PacketPro.FirewallProcessor.verdict blacklist currentPacket ua w
  if send then
    let (ps_ind, w) := s.ps_ind.sendPacket currentPacket w
    (true, ua, { s with ps_ind }, w)
  else
    let (pf_ind, w) := s.pf_ind.freePacket currentPacket w
    (false, ua, { s with pf_ind }, w)

/-- The body of the `for` loop ignores what `inspect` returns. -/
def body (blacklist : Finset JLong) : PacketList.Body Handlers := fun p ua s w =>
  (inspect blacklist p ua s w).2

/-- One iteration of the `while` loop. -/
def iteration (blacklist : Finset JLong) (delivered : List RxMbuf) (s : Processor) (w : World) :
    Processor × World :=
  let (some_packets, rp_ind, w) := s.rp_ind.getBurst delivered w
  if some_packets then
    let (packets, handlers, w) := rp_ind.packets.forEach (body blacklist) s.toHandlers w
    ({ toHandlers := handlers, rp_ind := { rp_ind with packets } }, w)
  else
    ({ s with rp_ind }, w)

/-- The `while` loop over a sequence of poll results. -/
def run (blacklist : Finset JLong) : List (List RxMbuf) → Processor → World → Processor × World
  | [], s, w => (s, w)
  | delivered :: bursts, s, w =>
    let (s, w) := iteration blacklist delivered s w
    run blacklist bursts s w

/-- The first `j` packets of a poll. -/
def iterationUpTo (blacklist : Finset JLong) (delivered : List RxMbuf) (j : Nat) (s : Processor)
    (w : World) : Handlers × World :=
  let (some_packets, rp_ind, w) := s.rp_ind.getBurst delivered w
  if some_packets then
    (rp_ind.packets.forEachUpTo (body blacklist) j s.toHandlers w).2.2
  else
    (s.toHandlers, w)

end FirewallProcessor

/-- Where the three buffers of a processor were allocated. -/
structure Layout where
  rp : Addr
  ps : Addr
  pf : Addr

namespace Layout

/-- A processor over newly constructed objects. -/
def processor (L : Layout) (w : World) : Processor × World :=
  let (ps_ind, w) := PacketSender.new L.ps w
  let (pf_ind, w) := PacketFreeer.new L.pf w
  ({ ps_ind, pf_ind, rp_ind := ReceivePoller.new L.rp }, w)

/-- The buffers, each with the size that its constructor allocates. -/
def rpRegion (L : Layout) : Region 64 := ⟨L.rp, (ReceivePoller.new L.rp).memory_size.toNat⟩
def psRegion (L : Layout) : Region 64 :=
  ⟨L.ps, (PacketListCreate.allocated DEFAULT_SEND_BURST).toNat⟩
def pfRegion (L : Layout) : Region 64 :=
  ⟨L.pf, (PacketListCreate.allocated DEFAULT_FREE_BURST).toNat⟩

/-- The buffers do not overlap. -/
structure Separate (L : Layout) : Prop where
  rp_ps : L.rpRegion.Disjoint L.psRegion
  rp_pf : L.rpRegion.Disjoint L.pfRegion
  ps_pf : L.psRegion.Disjoint L.pfRegion

/-- A packet header lies outside the buffers. -/
structure Apart (L : Layout) (p : Packet) : Prop where
  rp : p.header.Disjoint L.rpRegion
  ps : p.header.Disjoint L.psRegion
  pf : p.header.Disjoint L.pfRegion

/-- What a run may access: the buffers, and the headers of received packets
    for reading. -/
def allowed (L : Layout) (received : List RxMbuf) (kind : AccessKind) (b : Addr) : Prop :=
  b ∈ L.rpRegion ∨ b ∈ L.psRegion ∨ b ∈ L.pfRegion ∨
    kind = .load ∧ ∃ r ∈ received, b ∈ r.packet.header

end Layout

/-- Conservation at one point of a run: `received` so far, in a run that
    receives `all`. -/
structure Conserved (L : Layout) (blacklist : Finset JLong) (m₀ : Memory 64)
    (all received : List RxMbuf) (s : Handlers) (w : World) : Prop where
  /-- Presented for transmission, then waiting to be: what passes. -/
  sent : presented w.nic.txBursts ++ s.ps_ind.list.mbufs w.mem =
    (received.filter fun r => r.packet.passes blacklist m₀).map RxMbuf.mbuf
  /-- Freed, then waiting to be: all others. -/
  freed : w.nic.freed ++ s.pf_ind.list.mbufs w.mem =
    (received.filter fun r => !r.packet.passes blacklist m₀).map RxMbuf.mbuf
  sentBatches : ∀ d ∈ w.nic.txBursts, d.batch.length = 16
  freedBatches : ∀ n ∈ w.nic.freeCounts, n = 16
  sendHeld : s.ps_ind.list.size.toNat < 16
  freeHeld : s.pf_ind.list.size.toNat < 16
  accesses : w.Safe (L.allowed all)

/-! ## Section 2: The link to the queues -/

section link
variable (L : Layout) (allowed : AccessKind → Addr → Prop) (base : Memory 64)

/-- The native buffers hold what two batching queues hold, the NIC has seen
    what they have flushed, and outside the two buffers memory is `base`. -/
structure Linked (sendQ freeQ : Queue Mbuf) (s : Handlers) (w : World) : Prop where
  sender : s.ps_ind.toBurstQueue.Buffers w.mem sendQ.held
  freeer : s.pf_ind.toBurstQueue.Buffers w.mem freeQ.held
  senderRegion : s.ps_ind.toBurstQueue.region = L.psRegion
  freeerRegion : s.pf_ind.toBurstQueue.region = L.pfRegion
  batches : w.nic.txBursts.map Delivery.batch = sendQ.flushed
  freed : w.nic.freed = freeQ.flushed.flatten
  freeCounts : w.nic.freeCounts = freeQ.flushed.map List.length
  sendExact : sendQ.Exact 16
  freeExact : freeQ.Exact 16
  frame : ∀ b, b ∉ L.psRegion → b ∉ L.pfRegion → w.mem b = base b
  safe : w.Safe allowed

/-- The queues have been given the packets that pass, and the others. -/
def Accounted (blacklist : Finset JLong) (m₀ : Memory 64) (packets : List Packet) (s : Handlers)
    (w : World) : Prop :=
  ∃ sendQ freeQ, Linked L allowed base sendQ freeQ s w ∧
    sendQ.given = (packets.filter (Packet.passes blacklist m₀)).map Packet.mbuf_pointer ∧
    freeQ.given = (packets.filter fun p => !p.passes blacklist m₀).map Packet.mbuf_pointer

end link

section step
variable {L : Layout} {allowed : AccessKind → Addr → Prop} {base : Memory 64}
  {sendQ freeQ : Queue Mbuf} {s : Handlers} {w : World}

/-- A step that only reads memory keeps the link. -/
theorem Linked.confined (h : Linked L allowed base sendQ freeQ s w) {w' : World}
    (hconf : World.Confined allowed w w') (hmem : w'.mem = w.mem) :
    Linked L allowed base sendQ freeQ s w' := by
  -- a confined change of the world touches neither the NIC nor the two buffers
  constructor
  · rw [hmem]
    exact h.sender
  · rw [hmem]
    exact h.freeer
  · exact h.senderRegion
  · exact h.freeerRegion
  · rw [hconf.nic]
    exact h.batches
  · rw [hconf.nic]
    exact h.freed
  · rw [hconf.nic]
    exact h.freeCounts
  · exact h.sendExact
  · exact h.freeExact
  · rw [hmem]
    exact h.frame
  · exact hconf.safe h.safe

theorem Linked.sendPacket (h : Linked L allowed base sendQ freeQ s w) (hsep : L.Separate)
    (hallowed : ∀ kind b, b ∈ L.psRegion → allowed kind b) (p : Packet) :
    Linked L allowed base (sendQ.pushFull 16 p.mbuf_pointer) freeQ
      { s with ps_ind := (s.ps_ind.sendPacket p w).1 } (s.ps_ind.sendPacket p w).2 := by
  obtain ⟨hbuf, hnic, hwithin, hsafe⟩ := BurstQueue.add_spec nat_send_packets_drains h.sender
    (fun kind b hb => hallowed kind b (h.senderRegion ▸ hb)) p
  have houtside : ∀ b, b ∉ L.psRegion → (s.ps_ind.sendPacket p w).2.mem b = w.mem b := by
    intro b hb
    exact hwithin.mem b (h.senderRegion ▸ hb)
  refine ⟨?_, ?_, hwithin.region.trans h.senderRegion, h.freeerRegion, ?_, ?_, ?_,
    h.sendExact.pushFull _, h.freeExact, ?_, hsafe h.safe⟩
  · rw [held_pushFull]
    exact hbuf
  · -- the freeer's buffer is out of reach of the sender
    apply h.freeer.congr
    intro b hb
    rw [h.freeerRegion] at hb
    exact houtside b (hsep.ps_pf.symm b hb)
  · rw [flushed_pushFull]
    refine (congrArg (fun nic => nic.txBursts.map Delivery.batch) hnic).trans ?_
    by_cases hfull : sendQ.held.length + 1 = 16
    · simp [hfull, Nic.transmit, h.batches]
    · simp [hfull, h.batches]
  · refine (congrArg Nic.freed hnic).trans ?_
    rw [← h.freed]
    split <;> rfl
  · refine (congrArg Nic.freeCounts hnic).trans ?_
    rw [← h.freeCounts]
    split <;> rfl
  · intro b hps hpf
    rw [houtside b hps, h.frame b hps hpf]

theorem Linked.freePacket (h : Linked L allowed base sendQ freeQ s w) (hsep : L.Separate)
    (hallowed : ∀ kind b, b ∈ L.pfRegion → allowed kind b) (p : Packet) :
    Linked L allowed base sendQ (freeQ.pushFull 16 p.mbuf_pointer)
      { s with pf_ind := (s.pf_ind.freePacket p w).1 } (s.pf_ind.freePacket p w).2 := by
  obtain ⟨hbuf, hnic, hwithin, hsafe⟩ := BurstQueue.add_spec nat_free_packets_drains h.freeer
    (fun kind b hb => hallowed kind b (h.freeerRegion ▸ hb)) p
  have houtside : ∀ b, b ∉ L.pfRegion → (s.pf_ind.freePacket p w).2.mem b = w.mem b := by
    intro b hb
    exact hwithin.mem b (h.freeerRegion ▸ hb)
  refine ⟨?_, ?_, h.senderRegion, hwithin.region.trans h.freeerRegion, ?_, ?_, ?_,
    h.sendExact, h.freeExact.pushFull _, ?_, hsafe h.safe⟩
  · -- the sender's buffer is out of reach of the freeer
    apply h.sender.congr
    intro b hb
    rw [h.senderRegion] at hb
    exact houtside b (hsep.ps_pf b hb)
  · rw [held_pushFull]
    exact hbuf
  · refine (congrArg (fun nic => nic.txBursts.map Delivery.batch) hnic).trans ?_
    rw [← h.batches]
    split <;> rfl
  · rw [flushed_pushFull]
    refine (congrArg Nic.freed hnic).trans ?_
    by_cases hfull : freeQ.held.length + 1 = 16
    · simp [hfull, Nic.release, h.freed]
    · simp [hfull, h.freed]
  · rw [flushed_pushFull]
    refine (congrArg Nic.freeCounts hnic).trans ?_
    by_cases hfull : freeQ.held.length + 1 = 16
    · simp [hfull, Nic.release, h.freeCounts]
    · simp [hfull, h.freeCounts]
  · intro b hps hpf
    rw [houtside b hpf, h.frame b hps hpf]

/-! ## Section 3: One packet -/

variable {blacklist : Finset JLong} {m₀ : Memory 64} {packets : List Packet}

/-- **Step lemma**: `inspect` accounts for one more packet, whose header is
    still what it was when the run started. -/
theorem body_accounted (h : Accounted L allowed base blacklist m₀ packets s w)
    (hsep : L.Separate) (hps : ∀ kind b, b ∈ L.psRegion → allowed kind b)
    (hpf : ∀ kind b, b ∈ L.pfRegion → allowed kind b) {p : Packet} (hapart : L.Apart p)
    (hheader : ∀ b, b ∈ p.header → allowed .load b)
    (hbase : ∀ b, b ∈ p.header → base b = m₀ b) (ua : UnsafeAccess) :
    Accounted L allowed base blacklist m₀ (packets ++ [p])
      (FirewallProcessor.body blacklist p ua s w).2.1
      (FirewallProcessor.body blacklist p ua s w).2.2 := by
  obtain ⟨sendQ, freeQ, hlink, hsend, hfree⟩ := h
  -- nothing has written to the header since the start
  have hpasses : p.passes blacklist w.mem = p.passes blacklist m₀ := by
    apply p.passes_congr
    intro b hb
    rw [hlink.frame b (hapart.ps b hb) (hapart.pf b hb), hbase b hb]
  have hverdict := PacketPro.FirewallProcessor.verdict_fst blacklist p ua w
  rw [hpasses] at hverdict
  -- reading the header changes no buffer, so both queues are as before
  have hread := hlink.confined
    (PacketPro.FirewallProcessor.verdict_confined blacklist p ua w hheader)
    (PacketPro.FirewallProcessor.verdict_mem blacklist p ua w)
  unfold FirewallProcessor.body FirewallProcessor.inspect
  by_cases hpass : p.passes blacklist m₀ = true
  · rw [hpass] at hverdict
    simp only [hverdict, if_true]
    refine ⟨sendQ.pushFull 16 p.mbuf_pointer, freeQ, hread.sendPacket hsep hps p, ?_, ?_⟩
    · rw [given_pushFull, hsend, List.filter_append, List.map_append]
      simp [hpass]
    · rw [hfree, List.filter_append, List.map_append]
      simp [hpass]
  · rw [Bool.not_eq_true] at hpass
    rw [hpass] at hverdict
    simp only [hverdict, Bool.false_eq_true, if_false]
    refine ⟨sendQ, freeQ.pushFull 16 p.mbuf_pointer, hread.freePacket hsep hpf p, ?_, ?_⟩
    · rw [hsend, List.filter_append, List.map_append]
      simp [hpass]
    · rw [given_pushFull, hfree, List.filter_append, List.map_append]
      simp [hpass]

end step

/-! ## Section 4: One burst -/

/-- Between bursts: every packet so far is accounted for, and memory outside
    the buffers is what it was. -/
structure Settled (L : Layout) (allowed : AccessKind → Addr → Prop) (blacklist : Finset JLong)
    (m₀ : Memory 64) (packets : List Packet) (s : Handlers) (w : World) : Prop where
  accounted : Accounted L allowed w.mem blacklist m₀ packets s w
  outside : ∀ b, b ∉ L.rpRegion → b ∉ L.psRegion → b ∉ L.pfRegion → w.mem b = m₀ b

section burst
variable {L : Layout} {blacklist : Finset JLong} {m₀ : Memory 64} {all : List RxMbuf}

/-- The part of the poller's buffer that a burst of legal size fills. -/
theorem burst_within (L : Layout) {len : Nat} (hlen : len ≤ 512) :
    (⟨L.rp, 2 + 16 * len⟩ : Region 64) ⊆ L.rpRegion :=
  Region.prefix_subset L.rp (show 2 + 16 * len ≤ 8208 by omega)

/-- A poll keeps the accounts and leaves memory outside its buffer alone. -/
theorem Settled.poll {packets : List Packet} {s : Processor} {w : World}
    (h : Settled L (L.allowed all) blacklist m₀ packets s.toHandlers w) (hsep : L.Separate)
    (hrp : s.rp_ind.mem_pointer = L.rp) {delivered : List RxMbuf} (hlen : delivered.length ≤ 512) :
    Settled L (L.allowed all) blacklist m₀ packets s.toHandlers
      (s.rp_ind.getBurst delivered w).2.2 := by
  have hbuffer : ∀ kind b, b ∈ (⟨L.rp, 2 + 16 * delivered.length⟩ : Region 64) →
      L.allowed all kind b := by
    intro kind b hb
    exact Or.inl (burst_within L hlen b hb)
  have hworld := s.rp_ind.getBurst_world delivered w
  rw [hrp] at hworld
  -- the native stores, then the read of the count
  have hreceive := nat_receive_burst_confined L.rp delivered w (by omega) (hbuffer .store)
  have hcount : World.Confined (L.allowed all) (nat_receive_burst L.rp delivered w)
      ((nat_receive_burst L.rp delivered w).touch L.rp 2) := by
    apply World.touch_confined
    intro b hb
    exact Or.inl (Region.prefix_subset L.rp (show 2 ≤ 8208 by decide) b hb)
  have hconf := hreceive.trans hcount
  have hmem : ∀ b, b ∉ L.rpRegion →
      ((nat_receive_burst L.rp delivered w).touch L.rp 2).mem b = w.mem b := by
    intro b hb
    rw [World.touch_mem]
    apply nat_receive_burst_mem_outside _ _ _ (by omega)
    exact fun hin => hb (burst_within L hlen b hin)
  obtain ⟨⟨sendQ, freeQ, hlink, hsend, hfree⟩, houtside⟩ := h
  rw [hworld]
  refine ⟨⟨sendQ, freeQ, ?_, hsend, hfree⟩, ?_⟩
  · refine ⟨?_, ?_, hlink.senderRegion, hlink.freeerRegion, ?_, ?_, ?_, hlink.sendExact,
      hlink.freeExact, fun b _ _ => rfl, hconf.safe hlink.safe⟩
    · apply hlink.sender.congr
      intro b hb
      rw [hlink.senderRegion] at hb
      exact hmem b (hsep.rp_ps.symm b hb)
    · apply hlink.freeer.congr
      intro b hb
      rw [hlink.freeerRegion] at hb
      exact hmem b (hsep.rp_pf.symm b hb)
    · rw [hconf.nic]
      exact hlink.batches
    · rw [hconf.nic]
      exact hlink.freed
    · rw [hconf.nic]
      exact hlink.freeCounts
  · intro b hrp' hps hpf
    rw [hmem b hrp', houtside b hrp' hps hpf]

/-- The first `j` packets of a burst, by the loop rule. -/
theorem Settled.iterationUpTo {packets : List Packet} {s : Processor} {w : World}
    (h : Settled L (L.allowed all) blacklist m₀ packets s.toHandlers w) (hsep : L.Separate)
    (hapart : ∀ r ∈ all, L.Apart r.packet) (hrp : s.rp_ind.mem_pointer = L.rp)
    {delivered : List RxMbuf} (hlen : delivered.length ≤ 512) (hall : ∀ r ∈ delivered, r ∈ all)
    {j : Nat} (hj : j ≤ delivered.length) :
    let r := FirewallProcessor.iterationUpTo blacklist delivered j s w
    Settled L (L.allowed all) blacklist m₀
      (packets ++ (delivered.take j).map RxMbuf.packet) r.1 r.2 := by
  have hpoll := h.poll hsep hrp hlen
  by_cases hnil : delivered = []
  · -- nothing received: the loop is skipped
    subst hnil
    unfold FirewallProcessor.iterationUpTo
    simp only [s.rp_ind.getBurst_nil w, Bool.false_eq_true, if_false, List.take_nil,
      List.map_nil, List.append_nil]
    exact hpoll
  · obtain ⟨hsome, hstart, hsize⟩ := s.rp_ind.getBurst_cons delivered w (by omega) hnil
    have hdecoded := s.rp_ind.getBurst_packetsAt delivered w (by omega)
    rw [hrp] at hstart hdecoded
    -- the pairs lie in the poller's buffer, which neither handler touches
    have hpairs : ∀ b, b ∈ (⟨cell L.rp 2, 16 * delivered.length⟩ : Region 64) →
        b ∈ L.rpRegion := by
      intro b hb
      exact burst_within L hlen b (cell_subset L.rp _ 2 _ (Nat.le_refl _) (by omega) b hb)
    have hrule := PacketList.forEach_rule (FirewallProcessor.body blacklist)
      (fun seen s' w' => Accounted L (L.allowed all)
        (s.rp_ind.getBurst delivered w).2.2.mem blacklist m₀ (packets ++ seen) s' w')
      (show delivered.length < 2 ^ 16 by omega) hdecoded
      ?hmem ?htouch ?hbody hstart hsize (s := s.toHandlers)
      (w := (s.rp_ind.getBurst delivered w).2.2) (by simpa using hpoll.accounted) j hj
    case hmem =>
      rintro seen s' w' ⟨sendQ, freeQ, hlink, -, -⟩ b hb
      exact hlink.frame b (hsep.rp_ps b (hpairs b hb)) (hsep.rp_pf b (hpairs b hb))
    case htouch =>
      rintro seen s' w' k hk ⟨sendQ, freeQ, hlink, hsend, hfree⟩
      refine ⟨sendQ, freeQ, hlink.confined (World.touch_confined w' ?_) rfl, hsend, hfree⟩
      intro b hb
      exact Or.inl (hpairs b (cell_subset (cell L.rp 2) _ k 8 hk (by omega) b hb))
    case hbody =>
      intro seen p rest ua s' w' hsplit hinv
      have hp : p ∈ delivered.map RxMbuf.packet := by
        rw [hsplit]
        simp
      obtain ⟨r, hr, rfl⟩ := List.mem_map.mp hp
      have hap := hapart r (hall r hr)
      have hstep := body_accounted hinv hsep (fun _ b hb => Or.inr (Or.inl hb))
        (fun _ b hb => Or.inr (Or.inr (Or.inl hb))) hap
        (fun b hb => Or.inr (Or.inr (Or.inr ⟨rfl, r, hall r hr, hb⟩)))
        (fun b hb => hpoll.outside b (hap.rp b hb) (hap.ps b hb) (hap.pf b hb)) ua
      rw [List.append_assoc] at hstep
      exact hstep
    obtain ⟨-, sendQ, freeQ, hlink, hsend, hfree⟩ := hrule
    unfold FirewallProcessor.iterationUpTo
    simp only [hsome, if_true]
    rw [List.map_take]
    refine ⟨⟨sendQ, freeQ, ?_, hsend, hfree⟩, ?_⟩
    · exact { hlink with frame := fun b _ _ => rfl }
    · intro b hrp' hps hpf
      rw [hlink.frame b hps hpf, hpoll.outside b hrp' hps hpf]

end burst

/-! ## Section 5: Every run -/

section run
variable {L : Layout} {blacklist : Finset JLong} {m₀ : Memory 64} {all : List RxMbuf}

/-- A whole burst is its first `delivered.length` packets. -/
theorem iteration_eq_iterationUpTo (blacklist : Finset JLong) (s : Processor) (w : World)
    {delivered : List RxMbuf} (hlen : delivered.length ≤ 512) :
    (FirewallProcessor.iteration blacklist delivered s w).1.toHandlers =
      (FirewallProcessor.iterationUpTo blacklist delivered delivered.length s w).1 ∧
    (FirewallProcessor.iteration blacklist delivered s w).2 =
      (FirewallProcessor.iterationUpTo blacklist delivered delivered.length s w).2 ∧
    (FirewallProcessor.iteration blacklist delivered s w).1.rp_ind.mem_pointer =
      s.rp_ind.mem_pointer := by
  have hpointer := s.rp_ind.getBurst_mem_pointer delivered w
  unfold FirewallProcessor.iteration FirewallProcessor.iterationUpTo
  by_cases hnil : delivered = []
  · subst hnil
    have hnone := s.rp_ind.getBurst_nil w
    simp only [hnone, Bool.false_eq_true, if_false]
    exact ⟨trivial, trivial, hpointer⟩
  · obtain ⟨hsome, -, hsize⟩ := s.rp_ind.getBurst_cons delivered w (by omega) hnil
    -- the iterator goes over as many packets as were delivered
    have hfuel : (s.rp_ind.getBurst delivered w).2.1.packets.size.toNat = delivered.length := by
      rw [hsize, BitVec.toNat_ofNat]
      omega
    simp only [hsome, if_true, PacketList.forEach, hfuel]
    exact ⟨trivial, trivial, hpointer⟩

/-- **Run lemma**: the accounts are settled after any sequence of bursts. -/
theorem Settled.run (hsep : L.Separate) (hapart : ∀ r ∈ all, L.Apart r.packet)
    {bursts : List (List RxMbuf)} (hlen : ∀ b ∈ bursts, b.length ≤ 512)
    (hall : ∀ r ∈ bursts.flatten, r ∈ all) {packets : List Packet} {s : Processor} {w : World}
    (h : Settled L (L.allowed all) blacklist m₀ packets s.toHandlers w)
    (hrp : s.rp_ind.mem_pointer = L.rp) :
    let r := FirewallProcessor.run blacklist bursts s w
    Settled L (L.allowed all) blacklist m₀ (packets ++ bursts.flatten.map RxMbuf.packet)
      r.1.toHandlers r.2 ∧ r.1.rp_ind.mem_pointer = L.rp := by
  induction bursts generalizing packets s w with
  | nil =>
    simp only [FirewallProcessor.run, List.flatten_nil, List.map_nil, List.append_nil]
    exact ⟨h, hrp⟩
  | cons delivered bursts ih =>
    have hlen' := hlen delivered (List.mem_cons_self ..)
    obtain ⟨hhandlers, hworld, hpointer⟩ := iteration_eq_iterationUpTo blacklist s w hlen'
    have hburst : Settled L (L.allowed all) blacklist m₀
        (packets ++ delivered.map RxMbuf.packet)
        (FirewallProcessor.iteration blacklist delivered s w).1.toHandlers
        (FirewallProcessor.iteration blacklist delivered s w).2 := by
      have hfull := h.iterationUpTo hsep hapart hrp hlen'
        (fun r hr => hall r (by rw [List.flatten_cons]; exact List.mem_append_left _ hr))
        (Nat.le_refl _)
      rw [List.take_length] at hfull
      rw [hhandlers, hworld]
      exact hfull
    -- the invariant is indexed by the packets so far, so the rest starts one burst later
    have hrest := ih (fun b hb => hlen b (List.mem_cons_of_mem _ hb))
      (fun r hr => hall r (by rw [List.flatten_cons]; exact List.mem_append_right _ hr))
      hburst (hpointer.trans hrp)
    rw [List.append_assoc, ← List.map_append, ← List.flatten_cons] at hrest
    exact hrest

/-- Settled accounts are conservation. -/
theorem Settled.conserved {received : List RxMbuf} {s : Handlers} {w : World}
    (h : Settled L (L.allowed all) blacklist m₀ (received.map RxMbuf.packet) s w) :
    Conserved L blacklist m₀ all received s w := by
  obtain ⟨⟨sendQ, freeQ, hlink, hsend, hfree⟩, -⟩ := h
  have hsendHeld := hlink.sendExact.2
  have hfreeHeld := hlink.freeExact.2
  have hmap : ∀ f : Packet → Bool, ((received.map RxMbuf.packet).filter f).map Packet.mbuf_pointer =
      (received.filter fun r => f r.packet).map RxMbuf.mbuf := by
    intro f
    rw [List.filter_map, List.map_map]
    rfl
  -- a buffer is never full between two packets
  have hsize : ∀ (l : PacketListCreate) (held : List Mbuf), l.Buffers w.mem held →
      held.length < 16 → l.size.toNat < 16 := by
    intro l held hl hheld
    rw [PacketListCreate.size, hl.count, BitVec.toNat_ofNat]
    omega
  constructor
  · rw [hlink.sender.list.mbufs_eq (by omega), presented, hlink.batches]
    exact hsend.trans (hmap _)
  · rw [hlink.freeer.list.mbufs_eq (by omega), hlink.freed]
    exact hfree.trans (hmap _)
  · intro d hd
    apply hlink.sendExact.1
    rw [← hlink.batches]
    exact List.mem_map_of_mem hd
  · intro n hn
    rw [hlink.freeCounts] at hn
    obtain ⟨b, hb, rfl⟩ := List.mem_map.mp hn
    exact hlink.freeExact.1 b hb
  · exact hsize _ _ hlink.sender.list hsendHeld
  · exact hsize _ _ hlink.freeer.list hfreeHeld
  · exact hlink.safe

/-- Newly constructed objects are settled. -/
theorem processor_settled (L : Layout) (allowed : AccessKind → Addr → Prop)
    (blacklist : Finset JLong) (m₀ : Memory 64) (accept : Nat → (n : Nat) → Fin (n + 1))
    (reading : Nat → JLong) :
    let r := L.processor (World.boot m₀ accept reading)
    Settled L allowed blacklist m₀ [] r.1.toHandlers r.2 ∧ r.1.rp_ind.mem_pointer = L.rp := by
  refine ⟨⟨⟨Queue.empty, Queue.empty, ?_, rfl, rfl⟩, fun b _ _ _ => rfl⟩, rfl⟩
  refine ⟨BurstQueue.new_buffers L.ps m₀, BurstQueue.new_buffers L.pf m₀, rfl, rfl, rfl, rfl, rfl,
    exact_empty (by decide), exact_empty (by decide), fun b _ _ => rfl, ?_⟩
  intro acc hacc
  exact absurd hacc List.not_mem_nil

end run

/-- **Main**: conservation after every run, and between any two packets of the
    burst that follows it. -/
theorem run_conserved (L : Layout) (hsep : L.Separate) (blacklist : Finset JLong) (m₀ : Memory 64)
    (accept : Nat → (n : Nat) → Fin (n + 1)) (reading : Nat → JLong)
    (bursts : List (List RxMbuf)) (hlen : ∀ b ∈ bursts, b.length ≤ 512)
    (hapart : ∀ r ∈ bursts.flatten, L.Apart r.packet) :
    let start := L.processor (World.boot m₀ accept reading)
    let after := FirewallProcessor.run blacklist bursts start.1 start.2
    Conserved L blacklist m₀ bursts.flatten bursts.flatten after.1.toHandlers after.2 ∧
    ∀ (next : List RxMbuf) (j : Nat), next.length ≤ 512 → (∀ r ∈ next, L.Apart r.packet) →
      j ≤ next.length →
      let between := FirewallProcessor.iterationUpTo blacklist next j after.1 after.2
      Conserved L blacklist m₀ (bursts.flatten ++ next) (bursts.flatten ++ next.take j)
        between.1 between.2 := by
  intro start after
  constructor
  · obtain ⟨hstart, hrp⟩ := processor_settled L (L.allowed bursts.flatten) blacklist m₀ accept
      reading
    obtain ⟨hrun, -⟩ := hstart.run hsep hapart hlen (fun r hr => hr) hrp
    exact hrun.conserved
  · intro next j hnext hnextApart hj
    -- the permissions of the run already include the headers of the next burst
    have hapart' : ∀ r ∈ bursts.flatten ++ next, L.Apart r.packet := by
      intro r hr
      rcases List.mem_append.mp hr with hold | hnew
      · exact hapart r hold
      · exact hnextApart r hnew
    obtain ⟨hstart, hrp⟩ :=
      processor_settled L (L.allowed (bursts.flatten ++ next)) blacklist m₀ accept reading
    obtain ⟨hrun, hrp'⟩ := hstart.run hsep hapart' hlen
      (fun r hr => List.mem_append_left _ hr) hrp
    have hbetween := hrun.iterationUpTo hsep hapart' hrp' hnext
      (fun r hr => List.mem_append_right _ hr) hj
    rw [List.nil_append, ← List.map_append] at hbetween
    exact hbetween.conserved

/-- Of 16 packets or more, a batch has been handed over. -/
theorem handedOver_ne_nil {handedOver : List Mbuf} {l : PacketListCreate} {m : Memory 64}
    {packets : List RxMbuf} (h : handedOver ++ l.mbufs m = packets.map RxMbuf.mbuf)
    (hheld : l.size.toNat < 16) (hmany : 16 ≤ packets.length) : handedOver ≠ [] := by
  intro hnone
  have hlength := congrArg List.length h
  rw [hnone, List.nil_append, PacketListCreate.mbufs, wordsAt_length, List.length_map] at hlength
  exact absurd hheld (Nat.not_lt.mpr (hmany.trans_eq hlength.symm))

/-- Buffers far apart from each other and from the packets below. -/
def sampleLayout : Layout := ⟨0x10000, 0x20000, 0x30000⟩

/-- Forty packets, one every 64 bytes. The last 20 are from 0x2000 on. -/
def sampleRxMbufs : List RxMbuf :=
  (List.range 40).map fun i => ⟨BitVec.ofNat 64 (0x8000 + i), BitVec.ofNat 64 (0x1b00 + 64 * i)⟩

/-- All packets below 0x2000 are IPv4, and the others are not. -/
def sampleMemory : Memory 64 := fun a => if a < 0x2000 then 0x45 else 0

/-- The packets, an empty poll, and one of the packets again. -/
def sampleBursts : List (List RxMbuf) := [sampleRxMbufs, [], sampleRxMbufs.take 1]

theorem sampleLayout_separate : sampleLayout.Separate := by
  constructor <;> exact Region.disjoint_of_le (by decide) (by decide)

theorem sampleBursts_apart : ∀ r ∈ sampleBursts.flatten, sampleLayout.Apart r.packet := by
  have hbelow : ∀ r ∈ sampleBursts.flatten, r.packet.header.base.toNat + 20 ≤ 0x10000 := by decide
  intro r hr
  have h := hbelow r hr
  constructor
  · exact Region.disjoint_of_le h (by decide)
  · exact Region.disjoint_of_le (h.trans (by decide)) (by decide)
  · exact Region.disjoint_of_le (h.trans (by decide)) (by decide)

/-- Of the 41 packets 21 pass and 20 do not: of both, a batch is handed over. -/
theorem run_conserved_sample :
    let start := sampleLayout.processor
      (World.boot sampleMemory (fun _ n => Fin.last n) (fun _ => 0))
    let after := FirewallProcessor.run ∅ sampleBursts start.1 start.2
    Conserved sampleLayout ∅ sampleMemory sampleBursts.flatten sampleBursts.flatten
        after.1.toHandlers after.2 ∧
      presented after.2.nic.txBursts ≠ [] ∧ after.2.nic.freed ≠ [] := by
  have h := (run_conserved sampleLayout sampleLayout_separate ∅ sampleMemory
    (fun _ n => Fin.last n) (fun _ => 0) sampleBursts (by decide) sampleBursts_apart).1
  exact ⟨h, handedOver_ne_nil h.sent h.sendHeld (by decide),
    handedOver_ne_nil h.freed h.freeHeld (by decide)⟩

end PacketPro.DpdkJavaR
