import PacketPro.Framework.Ownership
import PacketPro.DpdkJava.Firewall

/-! # The Processing Threads of an Application

    `Firewall.main` starts two `FirewallProcessor` threads, each with a poller,
    a sender and a freeer of its own; `PacketCap.main` starts a
    `CaptureProcessor`. The threads run on different cores and share one native
    memory, in which every buffer of every thread lies next to the packets that
    the NIC writes.

    A thread's `run` is cut into the steps that the loop is made of: a poll,
    and the inspection of the next packet of the list that the poll returned.
    Any number of threads take such steps in any order.

    **Isolation** (`threads_isolated`): whatever the others do, the calls of
    each thread are those for its own polls, decided by the headers as they
    were; its sender and its freeer pass on what they are given, once and in
    order; and it has accessed its own buffers and the headers of its own
    packets only.

    Three things are asked of a run. A poll receives at most 32 packets, the
    number that the buffer of a poller has room for (`inRange_iff`), while the
    shipped configurations ask for more. The packet memory stays as it is: no
    mbuf is filled a second time. And as everywhere, the log does not have the
    accesses of DPDK itself, nor the loads from `struct rte_mbuf` in a poll.
-/

open ByteMem Batching Transitions

namespace PacketPro.DpdkJava

/-! ## Section 1: Definitions -/

/-- The two applications. -/
inductive Application where
  | capture
  | firewall (blacklist : Finset JLong)

namespace Application

def inspect : Application → Processor.Inspect
  | capture => CaptureProcessor.inspect
  | firewall blacklist => FirewallProcessor.inspect blacklist

/-- Whether the application sends a packet on, given packet memory. -/
def passes : Application → Memory 64 → Packet → Bool
  | capture, _, _ => false
  | firewall blacklist, m, p => p.passes blacklist m

/-- The call that the application makes for a packet. -/
def call (app : Application) (m : Memory 64) (p : Packet) : Call :=
  if app.passes m p then .sendPacket p else .freePacket p

end Application

/-- Where the three buffers of a thread were allocated. -/
structure ThreadBuffers where
  rp : Addr
  ps : Addr
  pf : Addr

namespace ThreadBuffers

/-- The buffers, each with the size that its constructor allocates. -/
def rpRegion (B : ThreadBuffers) : Region 64 :=
  ⟨B.rp, (ReceivePoller.memorySize DEFAULT_GET_SIZE).toNat⟩
def psRegion (B : ThreadBuffers) : Region 64 := ⟨B.ps, 2 + 8 * 32⟩
def pfRegion (B : ThreadBuffers) : Region 64 := ⟨B.pf, 2 + 8 * 32⟩

/-- An address in one of the buffers. -/
def owns (B : ThreadBuffers) (b : Addr) : Prop :=
  b ∈ B.rpRegion ∨ b ∈ B.psRegion ∨ b ∈ B.pfRegion

/-- The buffers of a thread do not overlap. -/
structure Separate (B : ThreadBuffers) : Prop where
  rp_ps : B.rpRegion.Disjoint B.psRegion
  rp_pf : B.rpRegion.Disjoint B.pfRegion
  ps_pf : B.psRegion.Disjoint B.pfRegion

/-- What a thread may access: its buffers, and the headers of the packets it
    has received for reading. -/
def allowed (B : ThreadBuffers) (received : List RxMbuf) (kind : AccessKind) (b : Addr) : Prop :=
  B.owns b ∨ kind = .load ∧ ∃ r ∈ received, b ∈ r.packet.header

end ThreadBuffers

/-- A thread: its objects, the packets that its `for` loop has still to
    inspect, and the part of the world that belongs to it (its queues of the
    NIC, its clock readings, the log of its accesses). -/
structure Thread where
  proc : Processor
  todo : List Packet
  world : World
  /-- The results of its polls so far, oldest first. -/
  polls : List (List RxMbuf)

/-- The steps of `run`. -/
inductive ThreadStep where
  | poll (delivered : List RxMbuf)
  | inspect

/-- The world of a thread over the memory that all share. -/
def onMemory (w : World) (m : Memory 64) : World := { w with heap := { w.heap with mem := m } }

namespace Thread

/-- `packets = rp_ind.getBurst()`, once the loop over the last list is done. -/
def poll (t : Thread) (delivered : List RxMbuf) (m : Memory 64) : Thread × Memory 64 :=
  let (packets, rp_ind, w) := t.proc.rp_ind.getBurst delivered (onMemory t.world m)
  ({ proc := { t.proc with rp_ind }, todo := packets, world := w
     polls := t.polls ++ [delivered] }, w.mem)

/-- One pass of `for (Packet p : packets) inspect(p)`. -/
def inspectNext (app : Application) (t : Thread) (p : Packet) (rest : List Packet)
    (m : Memory 64) : Thread × Memory 64 :=
  let (_, proc, w) := app.inspect p t.proc (onMemory t.world m)
  ({ t with proc, todo := rest, world := w }, w.mem)

def exec (app : Application) : Ownership.Exec Thread ThreadStep Addr (BitVec 8)
  | .poll delivered, t, m => if t.todo = [] then some (t.poll delivered m) else none
  | .inspect, t, m =>
    match t.todo with
    | [] => none
    | p :: rest => some (t.inspectNext app p rest m)

/-- A thread over newly constructed objects. -/
def new (B : ThreadBuffers) (m : Memory 64) (accept : Nat → (n : Nat) → Fin (n + 1))
    (reading : Nat → JLong) : Thread :=
  let (proc, world) := Processor.new B.ps B.pf B.rp (World.boot m accept reading)
  { proc, todo := [], world, polls := [] }

end Thread

/-- The threads of an application, over the packet memory `m₀`. -/
structure Deployment (ι : Type) where
  app : ι → Application
  buffers : ι → ThreadBuffers
  accept : ι → Nat → (n : Nat) → Fin (n + 1)
  reading : ι → Nat → JLong
  m₀ : Memory 64

namespace Deployment

variable {ι : Type} (D : Deployment ι)

/-- Every buffer is apart from every other, of the same or another thread. -/
structure Apart : Prop where
  separate : ∀ i, (D.buffers i).Separate
  threads : ∀ i j b, i ≠ j → (D.buffers i).owns b → ¬ (D.buffers j).owns b

/-- What a poll has to return for isolation: at most 32 packets, which is what
    its buffer has room for, with headers outside all buffers. -/
def Legal (step : ThreadStep) : Prop :=
  ∀ delivered, step = .poll delivered →
    delivered.length ≤ 32 ∧ ∀ r ∈ delivered, ∀ b, b ∈ r.packet.header → ∀ j,
      ¬ (D.buffers j).owns b

/-- All interleavings of the threads. -/
def system [DecidableEq ι] : System (Ownership.State ι Thread Addr (BitVec 8)) (ι × ThreadStep) :=
  Ownership.system
    (fun s => s = ⟨fun i => Thread.new (D.buffers i) D.m₀ (D.accept i) (D.reading i), D.m₀⟩)
    fun i => Thread.exec (D.app i)

end Deployment

/-- The mbufs given to the sender, and those given to the freeer. -/
def Call.sent : List Call → List Mbuf
  | [] => []
  | .sendPacket p :: calls => p.mbuf_pointer :: sent calls
  | .freePacket _ :: calls => sent calls

def Call.freed : List Call → List Mbuf
  | [] => []
  | .sendPacket _ :: calls => freed calls
  | .freePacket p :: calls => p.mbuf_pointer :: freed calls

/-- What each thread can rely on, whatever the others do. -/
structure Thread.Isolated (app : Application) (B : ThreadBuffers) (m₀ : Memory 64) (t : Thread)
    (m : Memory 64) : Prop where
  /-- Its calls, and those to come for the list in hand, are decided by its own
      polls and by the headers as they were. -/
  calls : t.proc.calls ++ t.todo.map (app.call m₀) =
    (replay [] (t.polls.map (List.map RxMbuf.packet))).map (app.call m₀)
  /-- What it has sent, and what waits to be sent. -/
  sent : presented t.world.nic.txBursts ++ t.proc.ps_ind.pending m = Call.sent t.proc.calls
  /-- What it has freed, and what waits to be freed. -/
  freed : t.world.nic.freed ++ t.proc.pf_ind.pending m = Call.freed t.proc.calls
  /-- Its buffers are never full between two steps. -/
  room : (t.proc.ps_ind.pending m).length < 32 ∧ (t.proc.pf_ind.pending m).length < 32
  accesses : t.world.Safe (B.allowed t.polls.flatten)

/-! ## Section 2: One poll -/

namespace ReceivePoller

section confined
variable {allowed : AccessKind → Addr → Prop}

/-- A pass of the decoding loop reads one pair, and the length of the packet
    twice. -/
theorem addPacket_confined (temp : JLong) {i : Nat} (hi : i < 2 ^ 16) (rp : ReceivePoller)
    (w : World) (hpair : ∀ b, b ∈ (⟨cell temp (16 * i), 16⟩ : Region 64) → allowed .load b)
    (hheader : ∀ b, b ∈ (⟨word64 w.mem (cell temp (16 * i)),
      word64 w.mem (cell (cell temp (16 * i)) 8)⟩ : Packet).header → allowed .load b) :
    World.Confined allowed w (addPacket temp i rp w).2 := by
  have hat := UnsafeAccess.setCurrentPointer_at rp.ua (cell temp (16 * i))
  have hfst := hat.address (by decide)
  have hsnd := (hat.advance 8).address (by decide)
  rw [cell_zero] at hfst
  have hpart : ∀ k n, k + n ≤ 16 →
      ∀ b, b ∈ (⟨cell (cell temp (16 * i)) k, n⟩ : Region 64) → allowed .load b := by
    intro k n hk b hb
    exact hpair b (cell_subset _ 16 k n hk (by decide) b hb)
  have hlength : ∀ (p : Packet) (ua : UnsafeAccess) (w' : World),
      (∀ b, b ∈ p.header → allowed .load b) →
      World.Confined allowed w' (Ipv4Packet.getLength p ua w').2.2 := by
    intro p ua w' h
    apply World.touch_confined
    intro b hb
    rw [Packet.seek_address] at hb
    exact h b (p.field_subset TOTAL_LENGTH_OFFSET 2 (by decide) b hb)
  unfold addPacket
  simp only [pair_address temp hi, UnsafeAccess.getLong, hfst, hsnd]
  refine ((World.Confined.trans (World.touch_confined w ?_) (World.touch_confined _ ?_)).trans
    (hlength _ _ _ hheader)).trans (hlength _ _ _ hheader)
  · rw [← cell_zero (cell temp (16 * i))]
    exact hpart 0 8 (by decide)
  · exact hpart (0 + 8) 8 (by decide)

theorem burstLoop_confined (temp : JLong) (n i : Nat) (rp : ReceivePoller) (w : World)
    (hn : i + n ≤ 2 ^ 16)
    (hpairs : ∀ b, b ∈ (⟨cell temp (16 * i), 16 * n⟩ : Region 64) → allowed .load b)
    (hheaders : ∀ p ∈ packetsAt w.mem (cell temp (16 * i)) n, ∀ b, b ∈ p.header →
      allowed .load b) :
    World.Confined allowed w (burstLoop temp n i rp w).2 := by
  induction n generalizing i rp w with
  | zero => exact World.Confined.refl w
  | succ n ih =>
    have hnext : cell temp (16 * (i + 1)) = cell (cell temp (16 * i)) 16 := by
      rw [Nat.mul_add, cell_add]
      rfl
    have hfirst := addPacket_confined temp (show i < 2 ^ 16 by omega) rp w
      (fun b hb => hpairs b (Region.prefix_subset _ (by omega) b hb))
      (hheaders _ (List.mem_cons_self ..))
    refine hfirst.trans (ih (i + 1) _ _ (by omega) ?_ ?_)
    · intro b hb
      rw [hnext] at hb
      exact hpairs b (cell_subset _ _ 16 (16 * n) (by omega) (by omega) b hb)
    · intro p hp
      rw [addPacket_mem, hnext] at hp
      exact hheaders p (List.mem_cons_of_mem _ hp)

/-- **One poll**: it leaves the NIC's queues and the clock alone, writes to
    its buffer, and reads that buffer and the headers of the burst. -/
theorem getBurst_confined (rp : ReceivePoller) (delivered : List RxMbuf) (w : World)
    (hlen : delivered.length ≤ 32)
    (hbuffer : ∀ kind b, b ∈ (⟨rp.mem_pointer, 2 + 16 * delivered.length⟩ : Region 64) →
      allowed kind b)
    (hheaders : ∀ r ∈ delivered, ∀ b, b ∈ r.packet.header → allowed .load b) :
    World.Confined allowed (rte_eth_rx_burst delivered w) (rp.getBurst delivered w).2.2 := by
  have hreceive := nat_receive_burst_confined rp.mem_pointer delivered w (by omega) (hbuffer .store)
  have hcount : World.Confined allowed (nat_receive_burst rp.mem_pointer delivered w)
      ((rp.ua.setCurrentPointer rp.mem_pointer).getShort
        (nat_receive_burst rp.mem_pointer delivered w)).2.2 := by
    apply World.touch_confined
    intro b hb
    rw [UnsafeAccess.setCurrentPointer_address] at hb
    exact hbuffer .load b (Region.prefix_subset rp.mem_pointer (by omega) b hb)
  have hcell : rp.mem_pointer +
      ((rp.ua.setCurrentPointer rp.mem_pointer).advance 2).offset.signExtend 64 =
        cell rp.mem_pointer 2 :=
    ((UnsafeAccess.setCurrentPointer_at rp.ua rp.mem_pointer).advance 2).address (by decide)
  have htoNat : (BitVec.ofNat 32 delivered.length).toNat = delivered.length := by
    rw [BitVec.toNat_ofNat]
    omega
  have hua : ((rp.ua.setCurrentPointer rp.mem_pointer).getShort
      (nat_receive_burst rp.mem_pointer delivered w)).2.1 =
      (rp.ua.setCurrentPointer rp.mem_pointer).advance 2 := rfl
  unfold getBurst
  simp only [getShort_receive_burst rp.ua rp.mem_pointer delivered w (by omega), htoNat]
  split
  · -- the loop over the pairs behind the count
    rw [hua, hcell]
    refine (hreceive.trans hcount).trans (burstLoop_confined _ _ 0 _ _ (by omega) ?_ ?_)
    · intro b hb
      rw [Nat.mul_zero, cell_zero] at hb
      exact hbuffer .load b (cell_subset rp.mem_pointer _ 2 _ (by omega) (by omega) b hb)
    · intro p hp
      rw [Nat.mul_zero, cell_zero] at hp
      have hdecoded := packetsAt_of_words _ _ _
        (nat_receive_burst_words rp.mem_pointer delivered w (by omega))
      have hmem : ((rp.ua.setCurrentPointer rp.mem_pointer).getShort
          (nat_receive_burst rp.mem_pointer delivered w)).2.2.mem =
          (nat_receive_burst rp.mem_pointer delivered w).mem := rfl
      rw [hmem, hdecoded] at hp
      obtain ⟨r, hr, rfl⟩ := List.mem_map.mp hp
      exact hheaders r hr
  · exact hreceive.trans hcount

/-- A poll writes what the native side writes. -/
theorem getBurst_mem (rp : ReceivePoller) (delivered : List RxMbuf) (w : World)
    (hlen : delivered.length < 2 ^ 16) :
    (rp.getBurst delivered w).2.2.mem = (nat_receive_burst rp.mem_pointer delivered w).mem := by
  by_cases hnil : delivered = []
  · subst hnil
    have hcount := getShort_receive_burst rp.ua rp.mem_pointer [] w (by decide)
    unfold getBurst
    simp only [hcount]
    rfl
  · obtain ⟨-, -, -, hmem⟩ := rp.getBurst_cons delivered w hlen hnil
    exact hmem

end confined

end ReceivePoller

/-! ## Section 3: One packet -/

/-- The list lies at `start` and holds the mbufs `held`, with room for more. -/
structure BurstList.Holding (l : BurstList) (start : Addr) (m : Memory 64) (held : List Mbuf) :
    Prop where
  buffers : l.Buffers m held
  room : held.length < 32
  start_pointer : l.start_pointer = start

namespace BurstList.Holding

variable {l : BurstList} {start : Addr} {held : List Mbuf}

theorem pending_eq {m : Memory 64} (h : l.Holding start m held) : l.pending m = held :=
  h.buffers.pending_eq (by have := h.room; omega)

/-- What a list holds is a matter of its own buffer. -/
theorem congr {m m' : Memory 64} (h : l.Holding start m held)
    (hmem : ∀ b, b ∈ (⟨start, 2 + 8 * 32⟩ : Region 64) → m' b = m b) :
    l.Holding start m' held := by
  have hroom := h.room
  refine ⟨⟨⟨h.buffers.count, h.buffers.mbuf_pointer, ?_⟩, h.buffers.burst⟩, h.room,
    h.start_pointer⟩
  refine (wordsAt_congr (by omega) ?_).trans h.buffers.words
  intro b hb
  rw [h.start_pointer] at hb
  exact hmem b (cell_subset start _ 2 _ (by omega) (by decide) b hb)

/-- **Step lemma**: the new mbuf joins those held, or all of them go out. -/
theorem add {native : Addr → World → World} {emit : List Mbuf → Nic → Nic}
    {allowed : AccessKind → Addr → Prop} (hdrains : Drains native emit) {w : World}
    (h : l.Holding start w.mem held)
    (hallowed : ∀ kind b, b ∈ (⟨start, 2 + 8 * 32⟩ : Region 64) → allowed kind b) (p : Packet) :
    ∃ held', (l.add native p w).1.Holding start (l.add native p w).2.mem held' ∧
      (held' = held ++ [p.mbuf_pointer] ∧ (l.add native p w).2.nic = w.nic ∨
        held' = [] ∧ (l.add native p w).2.nic = emit (held ++ [p.mbuf_pointer]) w.nic) ∧
      (∀ b, b ∉ (⟨start, 2 + 8 * 32⟩ : Region 64) → (l.add native p w).2.mem b = w.mem b) ∧
      (w.Safe allowed → (l.add native p w).2.Safe allowed) := by
  have hregion : l.region = ⟨start, 2 + 8 * 32⟩ := by
    rw [BurstList.region, h.start_pointer]
  have hadded := add_spec hdrains h.buffers h.room (hregion ▸ hallowed) p
  have hmem := hadded.mem
  rw [hregion] at hmem
  have hroom := h.room
  have hbuffers := hadded.buffers h.buffers.burst
  by_cases hflushes : l.Flushes w held
  · refine ⟨[], ⟨?_, by decide, hadded.start_pointer.trans h.start_pointer⟩, Or.inr ⟨rfl, ?_⟩,
      hmem, hadded.safe⟩
    · rw [if_pos hflushes] at hbuffers
      exact hbuffers
    · rw [hadded.nic, if_pos hflushes]
  · -- neither full nor late: the buffer keeps a free slot
    have hfull : held.length + 1 ≠ 32 :=
      fun hlen => hflushes (Or.inl ((full_iff h.buffers.burst h.room).mpr hlen))
    refine ⟨held ++ [p.mbuf_pointer], ⟨?_, ?_, hadded.start_pointer.trans h.start_pointer⟩,
      Or.inl ⟨rfl, ?_⟩, hmem, hadded.safe⟩
    · rw [if_neg hflushes] at hbuffers
      exact hbuffers
    · rw [List.length_append, List.length_singleton]
      omega
    · rw [hadded.nic, if_neg hflushes]

end BurstList.Holding

/-- Both applications read the header at most, then make one call. -/
theorem Application.inspect_spec {allowed : AccessKind → Addr → Prop} (app : Application)
    (p : Packet) (s : Processor) (w : World) (hheader : ∀ b, b ∈ p.header → allowed .load b) :
    ∃ ua w₁, World.Confined allowed w w₁ ∧ w₁.mem = w.mem ∧
      (app.inspect p s w).2 =
        if app.passes w.mem p then
          Processor.sendPacket { s with rp_ind := { s.rp_ind with unsafe_access := ua } } p w₁
        else
          Processor.freePacket { s with rp_ind := { s.rp_ind with unsafe_access := ua } } p w₁ := by
  cases app with
  | capture => exact ⟨s.rp_ind.unsafe_access, w, World.Confined.refl w, rfl, rfl⟩
  | firewall blacklist =>
    have hverdict := PacketPro.FirewallProcessor.verdict_fst blacklist p s.rp_ind.unsafe_access w
    refine ⟨(PacketPro.FirewallProcessor.verdict blacklist p s.rp_ind.unsafe_access w).2.1,
      (PacketPro.FirewallProcessor.verdict blacklist p s.rp_ind.unsafe_access w).2.2,
      PacketPro.FirewallProcessor.verdict_confined blacklist p _ w hheader,
      PacketPro.FirewallProcessor.verdict_mem blacklist p _ w, ?_⟩
    unfold Application.inspect FirewallProcessor.inspect Application.passes
    by_cases hpass : p.passes blacklist w.mem = true
    · simp only [hverdict, if_pos hpass]
    · simp only [hverdict, if_neg hpass]

theorem Call.sent_append (calls calls' : List Call) :
    Call.sent (calls ++ calls') = Call.sent calls ++ Call.sent calls' := by
  induction calls with
  | nil => rfl
  | cons c calls ih => cases c <;> simp [Call.sent, ih]

theorem Call.freed_append (calls calls' : List Call) :
    Call.freed (calls ++ calls') = Call.freed calls ++ Call.freed calls' := by
  induction calls with
  | nil => rfl
  | cons c calls ih => cases c <;> simp [Call.freed, ih]

/-- The two lists of a thread hold `sending` and `freeing`, and with what the
    NIC has been given they make up the calls. -/
structure Linked (B : ThreadBuffers) (sending freeing : List Mbuf) (s : Processor) (nic : Nic)
    (m : Memory 64) : Prop where
  sender : s.ps_ind.toBurstList.Holding B.ps m sending
  freeer : s.pf_ind.toBurstList.Holding B.pf m freeing
  sent : presented nic.txBursts ++ sending = Call.sent s.calls
  freed : nic.freed ++ freeing = Call.freed s.calls

namespace Linked

variable {B : ThreadBuffers} {sending freeing : List Mbuf} {s : Processor} {w : World}
  {allowed : AccessKind → Addr → Prop}

theorem congr {nic : Nic} {m m' : Memory 64} (h : Linked B sending freeing s nic m)
    (hmem : ∀ b, b ∈ B.psRegion ∨ b ∈ B.pfRegion → m' b = m b) :
    Linked B sending freeing s nic m' :=
  ⟨h.sender.congr fun b hb => hmem b (Or.inl hb), h.freeer.congr fun b hb => hmem b (Or.inr hb),
    h.sent, h.freed⟩

theorem sendPacket (h : Linked B sending freeing s w.nic w.mem) (hsep : B.Separate)
    (hallowed : ∀ kind b, B.owns b → allowed kind b) (p : Packet) :
    ∃ sending', Linked B sending' freeing (s.sendPacket p w).1 (s.sendPacket p w).2.nic
      (s.sendPacket p w).2.mem ∧
    (∀ b, ¬ B.owns b → (s.sendPacket p w).2.mem b = w.mem b) ∧
    (w.Safe allowed → (s.sendPacket p w).2.Safe allowed) := by
  obtain ⟨sending', hholding, hnic, hmem, hsafe⟩ := h.sender.add nat_send_packets_drains
    (fun kind b hb => hallowed kind b (Or.inr (Or.inl hb))) p
  have hcalls : Call.sent (s.calls ++ [.sendPacket p]) = Call.sent s.calls ++ [p.mbuf_pointer] :=
    Call.sent_append _ _
  have hcalls' : Call.freed (s.calls ++ [.sendPacket p]) = Call.freed s.calls :=
    (Call.freed_append _ _).trans (List.append_nil _)
  refine ⟨sending', ⟨hholding, ?_, ?_, ?_⟩, fun b hb => hmem b fun hin => hb (Or.inr (Or.inl hin)),
    hsafe⟩
  · -- the freeer's buffer is out of reach
    exact h.freeer.congr fun b hb => hmem b (hsep.ps_pf.symm b hb)
  · refine Eq.trans ?_ hcalls.symm
    rw [← h.sent]
    rcases hnic with ⟨rfl, hsame⟩ | ⟨rfl, hemit⟩
    · exact (congrArg (fun nic : Nic => presented nic.txBursts ++ (sending ++ [p.mbuf_pointer]))
        hsame).trans (List.append_assoc _ _ _).symm
    · refine (congrArg (fun nic : Nic => presented nic.txBursts ++ []) hemit).trans ?_
      simp [Nic.transmit, presented]
  · refine Eq.trans ?_ hcalls'.symm
    rw [← h.freed]
    rcases hnic with ⟨-, hsame⟩ | ⟨-, hemit⟩
    · exact congrArg (fun nic : Nic => nic.freed ++ freeing) hsame
    · exact (congrArg (fun nic : Nic => nic.freed ++ freeing) hemit).trans rfl

theorem freePacket (h : Linked B sending freeing s w.nic w.mem) (hsep : B.Separate)
    (hallowed : ∀ kind b, B.owns b → allowed kind b) (p : Packet) :
    ∃ freeing', Linked B sending freeing' (s.freePacket p w).1 (s.freePacket p w).2.nic
      (s.freePacket p w).2.mem ∧
    (∀ b, ¬ B.owns b → (s.freePacket p w).2.mem b = w.mem b) ∧
    (w.Safe allowed → (s.freePacket p w).2.Safe allowed) := by
  obtain ⟨freeing', hholding, hnic, hmem, hsafe⟩ := h.freeer.add nat_free_packets_drains
    (fun kind b hb => hallowed kind b (Or.inr (Or.inr hb))) p
  have hcalls : Call.freed (s.calls ++ [.freePacket p]) = Call.freed s.calls ++ [p.mbuf_pointer] :=
    Call.freed_append _ _
  have hcalls' : Call.sent (s.calls ++ [.freePacket p]) = Call.sent s.calls :=
    (Call.sent_append _ _).trans (List.append_nil _)
  refine ⟨freeing', ⟨?_, hholding, ?_, ?_⟩, fun b hb => hmem b fun hin => hb (Or.inr (Or.inr hin)),
    hsafe⟩
  · exact h.sender.congr fun b hb => hmem b (hsep.ps_pf b hb)
  · refine Eq.trans ?_ hcalls'.symm
    rw [← h.sent]
    rcases hnic with ⟨-, hsame⟩ | ⟨-, hemit⟩
    · exact congrArg (fun nic : Nic => presented nic.txBursts ++ sending) hsame
    · exact (congrArg (fun nic : Nic => presented nic.txBursts ++ sending) hemit).trans rfl
  · refine Eq.trans ?_ hcalls.symm
    rw [← h.freed]
    rcases hnic with ⟨rfl, hsame⟩ | ⟨rfl, hemit⟩
    · exact (congrArg (fun nic : Nic => nic.freed ++ (freeing ++ [p.mbuf_pointer]))
        hsame).trans (List.append_assoc _ _ _).symm
    · refine (congrArg (fun nic : Nic => nic.freed ++ []) hemit).trans ?_
      simp [Nic.release]

/-- **Step lemma**: inspecting a packet links one more call. -/
theorem inspect (app : Application) (h : Linked B sending freeing s w.nic w.mem)
    (hsep : B.Separate) (hallowed : ∀ kind b, B.owns b → allowed kind b) (p : Packet)
    (hheader : ∀ b, b ∈ p.header → allowed .load b) :
    ∃ sending' freeing', Linked B sending' freeing' (app.inspect p s w).2.1
      (app.inspect p s w).2.2.nic (app.inspect p s w).2.2.mem ∧
    (app.inspect p s w).2.1.calls = s.calls ++ [app.call w.mem p] ∧
    (app.inspect p s w).2.1.rp_ind.packets = s.rp_ind.packets ∧
    (app.inspect p s w).2.1.rp_ind.mem_pointer = s.rp_ind.mem_pointer ∧
    (∀ b, ¬ B.owns b → (app.inspect p s w).2.2.mem b = w.mem b) ∧
    (w.Safe allowed → (app.inspect p s w).2.2.Safe allowed) := by
  obtain ⟨ua, w₁, hconf, hmem, heq⟩ := app.inspect_spec p s w hheader
  have hlinked : Linked B sending freeing
      { s with rp_ind := { s.rp_ind with unsafe_access := ua } } w₁.nic w₁.mem := by
    rw [hconf.nic, hmem]
    exact ⟨h.sender, h.freeer, h.sent, h.freed⟩
  unfold Application.call
  rw [heq]
  by_cases hpass : app.passes w.mem p = true
  · simp only [if_pos hpass]
    obtain ⟨sending', hnext, hframe, hsafe⟩ := hlinked.sendPacket hsep hallowed p
    rw [hmem] at hframe
    exact ⟨sending', freeing, hnext, rfl, rfl, rfl, hframe, fun hs => hsafe (hconf.safe hs)⟩
  · simp only [if_neg hpass]
    obtain ⟨freeing', hnext, hframe, hsafe⟩ := hlinked.freePacket hsep hallowed p
    rw [hmem] at hframe
    exact ⟨sending, freeing', hnext, rfl, rfl, rfl, hframe, fun hs => hsafe (hconf.safe hs)⟩

end Linked

/-! ## Section 4: The history of a thread -/

section history
variable {α : Type}

/-- The burst that an empty poll repeats. -/
def lastBurst (last : List α) (bs : List (List α)) : List α :=
  bs.foldl (fun last b => if b = [] then last else b) last

theorem lastBurst_concat (last : List α) (bs : List (List α)) (b : List α) :
    lastBurst last (bs ++ [b]) = if b = [] then lastBurst last bs else b := by
  simp [lastBurst]

/-- One more poll hands over one more burst, its own or an earlier one. -/
theorem replay_concat (last : List α) (bs : List (List α)) (b : List α) :
    replay last (bs ++ [b]) = replay last bs ++ lastBurst last (bs ++ [b]) := by
  induction bs generalizing last with
  | nil =>
    by_cases hb : b = []
    · simp [replay, lastBurst, hb]
    · simp [replay, lastBurst, hb]
  | cons c bs ih =>
    by_cases hc : c = []
    · simp only [List.cons_append, replay, if_pos hc, ih last, List.append_assoc]
      simp [lastBurst, hc]
    · simp only [List.cons_append, replay, if_neg hc, ih c, List.append_assoc]
      simp [lastBurst, hc]

theorem mem_lastBurst {x : α} {bs : List (List α)} (h : x ∈ lastBurst [] bs) :
    x ∈ bs.flatten := by
  induction bs using List.reverseRecOn with
  | nil => exact h
  | append_singleton bs b ih =>
    rw [lastBurst_concat] at h
    rw [List.flatten_append, List.mem_append]
    by_cases hb : b = []
    · rw [if_pos hb] at h
      exact Or.inl (ih h)
    · rw [if_neg hb] at h
      exact Or.inr (by simpa using h)

end history

/-- What a thread keeps, if only its own steps write to its buffers and none
    to packet memory. -/
structure Thread.Inv {ι : Type} (D : Deployment ι) (i : ι) (t : Thread) (m : Memory 64) : Prop where
  linked : ∃ sending freeing, Linked (D.buffers i) sending freeing t.proc t.world.nic m
  poller : t.proc.rp_ind.mem_pointer = (D.buffers i).rp
  packets : t.proc.rp_ind.packets = lastBurst [] (t.polls.map (List.map RxMbuf.packet))
  calls : t.proc.calls ++ t.todo.map ((D.app i).call D.m₀) =
    (replay [] (t.polls.map (List.map RxMbuf.packet))).map ((D.app i).call D.m₀)
  todo : ∀ p ∈ t.todo, ∃ r ∈ t.polls.flatten, r.packet = p
  headers : ∀ r ∈ t.polls.flatten, ∀ b, b ∈ r.packet.header → ∀ j, ¬ (D.buffers j).owns b
  constant : ∀ b, (∀ j, ¬ (D.buffers j).owns b) → m b = D.m₀ b
  safe : t.world.Safe ((D.buffers i).allowed t.polls.flatten)

namespace Thread.Inv

variable {ι : Type} {D : Deployment ι} {i : ι} {t : Thread} {m : Memory 64}

theorem new (D : Deployment ι) (i : ι) :
    (Thread.new (D.buffers i) D.m₀ (D.accept i) (D.reading i)).Inv D i D.m₀ := by
  refine ⟨⟨[], [], ?_⟩, rfl, rfl, rfl, ?_, ?_, fun b _ => rfl, ?_⟩
  · exact ⟨⟨⟨⟨rfl, rfl, rfl⟩, rfl⟩, by decide, rfl⟩, ⟨⟨⟨rfl, rfl, rfl⟩, rfl⟩, by decide, rfl⟩,
      rfl, rfl⟩
  · intro p hp
    exact absurd hp List.not_mem_nil
  · intro r hr
    exact absurd hr List.not_mem_nil
  · intro acc hacc
    exact absurd hacc List.not_mem_nil

/-- The steps of other threads are out of reach. -/
theorem stable (hapart : D.Apart) (h : t.Inv D i m) {m' : Memory 64}
    (hmem : ∀ b, (∀ j, j ≠ i → ¬ (D.buffers j).owns b) → m' b = m b) : t.Inv D i m' := by
  obtain ⟨sending, freeing, hlinked⟩ := h.linked
  -- the thread's own buffers are nobody else's
  have hown : ∀ b, (D.buffers i).owns b → m' b = m b := by
    intro b hb
    exact hmem b fun j hj hother => hapart.threads i j b (Ne.symm hj) hb hother
  refine ⟨⟨sending, freeing, hlinked.congr fun b hb => hown b (Or.inr hb)⟩, h.poller, h.packets,
    h.calls, h.todo, h.headers, ?_, h.safe⟩
  intro b hb
  rw [hmem b fun j _ => hb j, h.constant b hb]

theorem isolated (h : t.Inv D i m) : t.Isolated (D.app i) (D.buffers i) D.m₀ m := by
  obtain ⟨sending, freeing, hlinked⟩ := h.linked
  refine ⟨h.calls, ?_, ?_, ?_, h.safe⟩
  · rw [hlinked.sender.pending_eq]
    exact hlinked.sent
  · rw [hlinked.freeer.pending_eq]
    exact hlinked.freed
  · rw [hlinked.sender.pending_eq, hlinked.freeer.pending_eq]
    exact ⟨hlinked.sender.room, hlinked.freeer.room⟩

/-- **Step lemma**, poll: the list of the poll is what remains to be done. -/
theorem poll (hapart : D.Apart) (h : t.Inv D i m) (hidle : t.todo = []) {delivered : List RxMbuf}
    (hlegal : D.Legal (.poll delivered)) :
    (t.poll delivered m).1.Inv D i (t.poll delivered m).2 ∧
    ∀ b, ¬ (D.buffers i).owns b → (t.poll delivered m).2 b = m b := by
  obtain ⟨hlen, hheaders⟩ := hlegal delivered rfl
  obtain ⟨sending, freeing, hlinked⟩ := h.linked
  have hsep := hapart.separate i
  have hflatten : (t.polls ++ [delivered]).flatten = t.polls.flatten ++ delivered := by simp
  -- the burst fits in the poller's buffer
  have hwithin : ∀ b, b ∈ (⟨t.proc.rp_ind.mem_pointer, 2 + 16 * delivered.length⟩ : Region 64) →
      b ∈ (D.buffers i).rpRegion := by
    rw [h.poller]
    exact Region.prefix_subset _ (show 2 + 16 * delivered.length ≤ 528 by omega)
  have hconf : World.Confined ((D.buffers i).allowed (t.polls ++ [delivered]).flatten)
      (rte_eth_rx_burst delivered (onMemory t.world m)) (t.poll delivered m).1.world := by
    apply t.proc.rp_ind.getBurst_confined delivered (onMemory t.world m) hlen
    · intro kind b hb
      exact Or.inl (Or.inl (hwithin b hb))
    · intro r hr b hb
      exact Or.inr ⟨rfl, r, by rw [hflatten]; exact List.mem_append_right _ hr, hb⟩
  have hmem : ∀ b, b ∉ (D.buffers i).rpRegion → (t.poll delivered m).2 b = m b := by
    intro b hb
    have heq := t.proc.rp_ind.getBurst_mem delivered (onMemory t.world m) (by omega)
    exact (congrFun heq b).trans
      (nat_receive_burst_mem_outside _ _ _ (by omega) fun hin => hb (hwithin b hin))
  -- an empty poll repeats the last list, any other replaces it
  have hlist : (t.poll delivered m).1.todo =
        lastBurst [] ((t.polls ++ [delivered]).map (List.map RxMbuf.packet)) ∧
      (t.poll delivered m).1.proc.rp_ind.packets =
        lastBurst [] ((t.polls ++ [delivered]).map (List.map RxMbuf.packet)) ∧
      (t.poll delivered m).1.proc.rp_ind.mem_pointer = t.proc.rp_ind.mem_pointer := by
    rw [List.map_append, List.map_cons, List.map_nil, lastBurst_concat]
    by_cases hnil : delivered = []
    · subst hnil
      obtain ⟨hpackets, hkept, hpointer⟩ := t.proc.rp_ind.getBurst_nil (onMemory t.world m)
      exact ⟨hpackets.trans h.packets, hkept.trans h.packets, hpointer⟩
    · have hne : delivered.map RxMbuf.packet ≠ [] := by simpa using hnil
      obtain ⟨hpackets, hkept, hpointer, -⟩ :=
        t.proc.rp_ind.getBurst_cons delivered (onMemory t.world m) (by omega) hnil
      rw [if_neg hne]
      exact ⟨hpackets, hkept, hpointer⟩
  obtain ⟨htodo, hpackets, hpointer⟩ := hlist
  refine ⟨⟨⟨sending, freeing, ?_⟩, hpointer.trans h.poller, hpackets, ?_, ?_, ?_, ?_, ?_⟩, ?_⟩
  · have hlinked' : Linked (D.buffers i) sending freeing (t.poll delivered m).1.proc
        t.world.nic m := ⟨hlinked.sender, hlinked.freeer, hlinked.sent, hlinked.freed⟩
    rw [show (t.poll delivered m).1.world.nic = t.world.nic from hconf.nic]
    apply hlinked'.congr
    rintro b (hb | hb)
    · exact hmem b (hsep.rp_ps.symm b hb)
    · exact hmem b (hsep.rp_pf.symm b hb)
  · have hcalls := h.calls
    rw [hidle, List.map_nil, List.append_nil] at hcalls
    show t.proc.calls ++ _ = (replay [] ((t.polls ++ [delivered]).map _)).map _
    rw [htodo, hcalls, List.map_append, List.map_cons, List.map_nil, replay_concat,
      List.map_append]
  · intro p hp
    rw [htodo] at hp
    have hmem' := mem_lastBurst hp
    rw [← List.map_flatten] at hmem'
    obtain ⟨r, hr, hpacket⟩ := List.mem_map.mp hmem'
    exact ⟨r, hr, hpacket⟩
  · intro r hr
    replace hr : r ∈ t.polls.flatten ++ delivered := hflatten ▸ hr
    rcases List.mem_append.mp hr with hold | hnew
    · exact h.headers r hold
    · exact hheaders r hnew
  · intro b hb
    rw [hmem b fun hin => hb i (Or.inl hin), h.constant b hb]
  · -- what was allowed so far still is
    apply hconf.safe
    intro acc hacc b hb
    rcases h.safe acc hacc b hb with hown | ⟨hload, r, hr, hin⟩
    · exact Or.inl hown
    · exact Or.inr ⟨hload, r, by rw [hflatten]; exact List.mem_append_left _ hr, hin⟩
  · intro b hb
    exact hmem b fun hin => hb (Or.inl hin)

/-- **Step lemma**, inspection: the next call is made. -/
theorem inspectNext (hapart : D.Apart) (h : t.Inv D i m) {p : Packet} {rest : List Packet}
    (htodo : t.todo = p :: rest) :
    (t.inspectNext (D.app i) p rest m).1.Inv D i (t.inspectNext (D.app i) p rest m).2 ∧
    ∀ b, ¬ (D.buffers i).owns b → (t.inspectNext (D.app i) p rest m).2 b = m b := by
  obtain ⟨sending, freeing, hlinked⟩ := h.linked
  obtain ⟨r, hr, rfl⟩ := h.todo p (by rw [htodo]; exact List.mem_cons_self ..)
  have hown : ∀ kind b, (D.buffers i).owns b → (D.buffers i).allowed t.polls.flatten kind b :=
    fun _ _ hb => Or.inl hb
  have hheader : ∀ b, b ∈ r.packet.header → (D.buffers i).allowed t.polls.flatten .load b :=
    fun b hb => Or.inr ⟨rfl, r, hr, hb⟩
  obtain ⟨sending', freeing', hnext, hcalls, hpackets, hpointer, hframe, hsafe⟩ :=
    Linked.inspect (w := onMemory t.world m) (D.app i) hlinked (hapart.separate i) hown r.packet
      hheader
  -- the header is still what it was at the start
  have hcall : (D.app i).call m r.packet = (D.app i).call D.m₀ r.packet := by
    unfold Application.call
    have hpasses : (D.app i).passes m r.packet = (D.app i).passes D.m₀ r.packet := by
      cases D.app i with
      | capture => rfl
      | firewall blacklist =>
        apply r.packet.passes_congr
        intro b hb
        exact h.constant b (h.headers r hr b hb)
    rw [hpasses]
  refine ⟨⟨⟨sending', freeing', hnext⟩, hpointer.trans h.poller, hpackets.trans h.packets, ?_, ?_,
    h.headers, ?_, hsafe h.safe⟩, hframe⟩
  · have hall := h.calls
    rw [htodo, List.map_cons] at hall
    show (t.inspectNext (D.app i) r.packet rest m).1.proc.calls ++ rest.map _ = _
    rw [show (t.inspectNext (D.app i) r.packet rest m).1.proc.calls =
      t.proc.calls ++ [(D.app i).call m r.packet] from hcalls, hcall, List.append_assoc]
    exact hall
  · intro q hq
    exact h.todo q (by rw [htodo]; exact List.mem_cons_of_mem _ hq)
  · intro b hb
    exact (hframe b (hb i)).trans (h.constant b hb)

/-- Every step of a thread is a poll or an inspection. -/
theorem exec (hapart : D.Apart) (h : t.Inv D i m) {a : ThreadStep} (hlegal : D.Legal a)
    {t' : Thread} {m' : Memory 64} (hexec : Thread.exec (D.app i) a t m = some (t', m')) :
    t'.Inv D i m' ∧ ∀ b, ¬ (D.buffers i).owns b → m' b = m b := by
  cases a with
  | poll delivered =>
    by_cases hidle : t.todo = []
    · simp only [Thread.exec, if_pos hidle, Option.some.injEq] at hexec
      have hpoll := h.poll hapart hidle hlegal
      rw [hexec] at hpoll
      exact hpoll
    · simp only [Thread.exec, if_neg hidle] at hexec
      exact absurd hexec.symm (Option.some_ne_none _)
  | inspect =>
    cases htodo : t.todo with
    | nil =>
      simp only [Thread.exec, htodo] at hexec
      exact absurd hexec.symm (Option.some_ne_none _)
    | cons p rest =>
      simp only [Thread.exec, htodo, Option.some.injEq] at hexec
      have hinspect := h.inspectNext hapart htodo
      rw [hexec] at hinspect
      exact hinspect

end Thread.Inv

/-! ## Section 5: Every interleaving -/

/-- The threads meet the contract of the ownership rule. -/
theorem Deployment.contract {ι : Type} (D : Deployment ι) (hapart : D.Apart) :
    Ownership.Contract (fun i => Thread.exec (D.app i)) (fun _ a => D.Legal a)
      (fun i b => (D.buffers i).owns b) (fun i t m => t.Inv D i m) where
  keeps _ _ _ _ _ _ hinv hlegal hexec := (hinv.exec hapart hlegal hexec).1
  frame _ _ _ _ _ _ hinv hlegal hexec := (hinv.exec hapart hlegal hexec).2
  stable _ _ _ _ hinv hmem := hinv.stable hapart hmem

/-- **Main**: for every number of threads, every choice of the application of
    each, and every interleaving of their inspections and of polls of at most 32
    packets, over packet memory that stays as it is, each thread works as it
    would alone. -/
theorem threads_isolated {ι : Type} [DecidableEq ι] (D : Deployment ι) (hapart : D.Apart)
    {s : Ownership.State ι Thread Addr (BitVec 8)}
    (hreach : ReachableWhile D.system (fun _ a => D.Legal a.2) s) (i : ι) :
    (s.threads i).Isolated (D.app i) (D.buffers i) D.m₀ s.store := by
  have hinv := (D.contract hapart).invariant (fun s hs i => by rw [hs]; exact Thread.Inv.new D i)
    hreach i
  exact hinv.isolated

/-- The two threads of `Firewall.main`, with buffers in pages of their own. -/
def sampleDeployment : Deployment Bool where
  app _ := .firewall ∅
  buffers i := if i then ⟨0x10000, 0x20000, 0x30000⟩ else ⟨0x40000, 0x50000, 0x60000⟩
  accept _ _ n := Fin.last n
  reading _ _ := 0
  m₀ _ := 0

theorem sampleDeployment_apart : sampleDeployment.Apart := by
  -- the buffers of the one thread lie below those of the other
  have hbelow : ∀ b, (sampleDeployment.buffers true).owns b →
      ¬ (sampleDeployment.buffers false).owns b := by
    rintro b (hb | hb | hb) (hc | hc | hc) <;>
      exact Region.disjoint_of_le (by decide) (by decide) b hb hc
  refine ⟨?_, ?_⟩
  · intro i
    cases i <;> constructor <;> exact Region.disjoint_of_le (by decide) (by decide)
  · intro i j b hne hi hj
    cases i <;> cases j
    · exact hne rfl
    · exact hbelow b hj hi
    · exact hbelow b hi hj
    · exact hne rfl

/-- A packet for the first thread. -/
def sampleMbuf : RxMbuf := ⟨0x1000, 0x2000⟩

theorem sampleDeployment_legal : sampleDeployment.Legal (.poll [sampleMbuf]) := by
  rintro delivered ⟨rfl⟩
  refine ⟨by decide, ?_⟩
  intro r hr b hb j
  rw [List.mem_singleton.mp hr] at hb
  cases j <;> rintro (hc | hc | hc) <;>
    exact Region.disjoint_of_le (by decide) (by decide) b hb hc

/-- A thread that has inspected its list can poll. -/
theorem Deployment.reachable_poll {ι : Type} [DecidableEq ι] (D : Deployment ι)
    {s : Ownership.State ι Thread Addr (BitVec 8)}
    (hreach : ReachableWhile D.system (fun _ a => D.Legal a.2) s) (i : ι)
    (hidle : (s.threads i).todo = []) {delivered : List RxMbuf}
    (hlegal : D.Legal (.poll delivered)) :
    ReachableWhile D.system (fun _ a => D.Legal a.2)
      ⟨Function.update s.threads i ((s.threads i).poll delivered s.store).1,
        ((s.threads i).poll delivered s.store).2⟩ :=
  hreach.step (a := (i, .poll delivered)) hlegal ⟨_, _, if_pos hidle, rfl⟩

/-- The first thread has a packet in hand when the second one polls. -/
theorem threads_isolated_two_polls :
    ∃ s, ReachableWhile sampleDeployment.system (fun _ a => sampleDeployment.Legal a.2) s ∧
      (s.threads true).todo = [sampleMbuf.packet] ∧ (s.threads false).polls = [[]] ∧
      ∀ i, (s.threads i).Isolated (sampleDeployment.app i) (sampleDeployment.buffers i)
        sampleDeployment.m₀ s.store := by
  have hempty : sampleDeployment.Legal (.poll []) := by
    rintro delivered ⟨rfl⟩
    exact ⟨by decide, fun r hr => absurd hr List.not_mem_nil⟩
  have hstart : ReachableWhile sampleDeployment.system (fun _ a => sampleDeployment.Legal a.2) _ :=
    ReachableWhile.init rfl
  have hone := sampleDeployment.reachable_poll hstart true rfl sampleDeployment_legal
  have htwo := sampleDeployment.reachable_poll hone false rfl hempty
  refine ⟨_, htwo, ?_, rfl, fun i => threads_isolated _ sampleDeployment_apart htwo i⟩
  simp only [Function.update_self, Function.update_of_ne (show true ≠ false by decide)]
  unfold Thread.poll
  exact (ReceivePoller.getBurst_cons _ [sampleMbuf] _ (by decide) (by simp)).1

end PacketPro.DpdkJava
