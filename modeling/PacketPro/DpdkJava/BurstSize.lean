import PacketPro.Transmission

/-! # The Burst Size of `PacketSender` and `PacketFreeer`

    Both classes allocate a buffer for 32 mbufs and start with a burst size of
    32. At that size the buffer never overflows and every mbuf is handed over
    exactly once, in order, whatever the clock does.

    `setSendBurst` and `setFreeBurst` change the burst size alone: neither the
    mbufs that wait nor the buffer is touched. As long as fewer mbufs wait than
    the burst size and the buffer allow, the next call is still a push of a
    batching queue. Beyond that, `sendBurst` hands over the first ones and
    keeps their slots, or the next store falls behind the buffer.
-/

open ByteMem Batching

namespace PacketPro.DpdkJava

/-! ## Section 1: Definitions -/

/-- A call on a sender or on a freeer. -/
inductive BurstCall where
  /-- `sendPacket`, `freePacket`. -/
  | add (p : Packet)
  /-- `setSendBurst`, `setFreeBurst`. -/
  | setBurst (burst : JInt)

/-- The mbufs given in a sequence of calls. -/
def BurstCall.given : List BurstCall → List Mbuf
  | [] => []
  | .add p :: calls => p.mbuf_pointer :: given calls
  | .setBurst _ :: calls => given calls

def PacketSender.exec (c : BurstCall) (s : PacketSender × World) : PacketSender × World :=
  match c with
  | .add p => s.1.sendPacket p s.2
  | .setBurst b => (s.1.setSendBurst b, s.2)

def PacketFreeer.exec (c : BurstCall) (s : PacketFreeer × World) : PacketFreeer × World :=
  match c with
  | .add p => s.1.freePacket p s.2
  | .setBurst b => (s.1.setFreeBurst b, s.2)

/-- A sequence of calls. -/
def runCalls {σ : Type} (exec : BurstCall → σ × World → σ × World) :
    List BurstCall → σ × World → σ × World
  | [], s => s
  | c :: calls, s => runCalls exec calls (exec c s)

/-- The mbufs of all transmit bursts so far. -/
def sent (nic : Nic) : List Mbuf := presented nic.txBursts

/-- The mbufs handed over and the mbufs that wait are those given, in order,
    and every access was to the buffer. -/
structure BurstList.Conserves (handed : Nic → List Mbuf) (start_pointer : JLong)
    (given : List Mbuf) (l : BurstList) (w : World) : Prop where
  given : handed w.nic ++ l.pending w.mem = given
  bounded : w.Safe fun _ b => b ∈ (⟨start_pointer, 2 + 8 * 32⟩ : Region 64)

/-- After a call, from `w` on, nothing waits, or fewer mbufs than the burst
    size wait and the one clock value that the call has read was in time. -/
def BurstList.Waits (w : World) (l' : BurstList) (w' : World) : Prop :=
  l'.pending w'.mem = [] ∨
    ((l'.pending w'.mem).length < l'.burst.toInt ∧
      (w.clock.reading w.clock.ticks - l'.past).toInt < MILLI_SECOND ∧
      w'.clock.ticks = w.clock.ticks + 1)

/-- What holds after the packets `ps` at the default burst size: everything
    given is accounted for, and the call for one more packet leaves nothing
    waiting for too long. -/
structure BurstList.Batches {σ : Type} (call : σ → Packet → World → σ × World)
    (list : σ → BurstList) (handed : Nic → List Mbuf) (start_pointer : JLong) (ps : List Packet)
    (s : σ × World) : Prop where
  conserves : (list s.1).Conserves handed start_pointer (ps.map Packet.mbuf_pointer) s.2
  burst : ∀ p, (list (call s.1 p s.2).1).burst = 32
  waits : ∀ p, Waits s.2 (list (call s.1 p s.2).1) (call s.1 p s.2).2

/-- Fewer mbufs wait than the burst size and the buffer allow. -/
def BurstList.HasRoom (l : BurstList) : Prop :=
  l.current_count.toInt < l.burst.toInt ∧ l.current_count.toInt < 32

instance (l : BurstList) : Decidable l.HasRoom := inferInstanceAs (Decidable (_ ∧ _))

/-- There is room before each packet of a run. -/
def RoomForEach {σ : Type} (exec : BurstCall → σ × World → σ × World) (list : σ → BurstList) :
    List BurstCall → σ × World → Prop
  | [], _ => True
  | c :: calls, s =>
    (∀ p, c = .add p → (list s.1).HasRoom) ∧ RoomForEach exec list calls (exec c s)

/-! ## Section 2: One call -/

namespace BurstList

section step
variable {native : Addr → World → World} {emit : List Mbuf → Nic → Nic}
  {handed : Nic → List Mbuf} {start : JLong} {given : List Mbuf} {l : BurstList} {w : World}

/-- The invariant of a run: what is handed over, and what the buffer holds. -/
structure Keeps (handed : Nic → List Mbuf) (start : JLong) (given held : List Mbuf)
    (l : BurstList) (w : World) : Prop where
  filled : l.Filled w.mem held
  fits : held.length ≤ 32
  given : handed w.nic ++ held = given
  start_pointer : l.start_pointer = start
  bounded : w.Safe fun _ b => b ∈ (⟨start, 2 + 8 * 32⟩ : Region 64)

variable {held : List Mbuf}

theorem Keeps.pending_eq (h : Keeps handed start given held l w) : l.pending w.mem = held :=
  h.filled.pending_eq (by have := h.fits; omega)

theorem Keeps.conserves (h : Keeps handed start given held l w) :
    Conserves handed start given l w := by
  refine ⟨?_, h.bounded⟩
  rw [h.pending_eq]
  exact h.given

theorem new_keeps (hempty : ∀ nic : Nic, nic.txBursts = [] → nic.freed = [] → handed nic = [])
    (start : JLong) (mem : Memory 64) (accept : Nat → (n : Nat) → Fin (n + 1))
    (reading : Nat → JLong) :
    Keeps handed start [] [] (new 32 start (World.boot mem accept reading)).1
      (new 32 start (World.boot mem accept reading)).2 := by
  refine ⟨⟨rfl, rfl, rfl⟩, Nat.zero_le _, ?_, rfl, ?_⟩
  · rw [List.append_nil]
    exact hempty _ rfl rfl
  · intro acc hacc
    exact absurd hacc List.not_mem_nil

/-- What `add` does to the mbufs held. -/
def heldAfter (l : BurstList) (w : World) (held : List Mbuf) (m : Mbuf) : List Mbuf :=
  if l.Flushes w held then [] else held ++ [m]

/-- **Step lemma**: a packet for which there is room is kept or handed over,
    with everything in front of it. -/
theorem Keeps.add (hdrains : Drains native emit)
    (hhanded : ∀ ms nic, handed (emit ms nic) = handed nic ++ ms)
    (h : Keeps handed start given held l w) (hroom : l.HasRoom) (p : Packet) :
    Keeps handed start (given ++ [p.mbuf_pointer]) (l.heldAfter w held p.mbuf_pointer)
      (l.add native p w).1 (l.add native p w).2 ∧
    Waits w (l.add native p w).1 (l.add native p w).2 ∧
    (l.add native p w).1.burst = l.burst := by
  have hcount := h.filled.count_toInt h.fits
  obtain ⟨hburst, hsize⟩ := hroom
  rw [hcount] at hburst hsize
  have hregion : ∀ (kind : AccessKind) (b : Addr), b ∈ l.region →
      (fun (_ : AccessKind) b => b ∈ (⟨start, 2 + 8 * 32⟩ : Region 64)) kind b := by
    rw [region, h.start_pointer]
    exact fun _ _ hb => hb
  have hpushed := add_pushed hdrains h.filled (by omega) hburst hregion p
  have hkeeps : Keeps handed start (given ++ [p.mbuf_pointer]) (l.heldAfter w held p.mbuf_pointer)
      (l.add native p w).1 (l.add native p w).2 := by
    refine ⟨hpushed.filled, ?_, ?_, hpushed.start_pointer.trans h.start_pointer,
      hpushed.safe h.bounded⟩
    · unfold heldAfter
      split
      · exact Nat.zero_le _
      · rw [List.length_append, List.length_singleton]
        omega
    · rw [hpushed.nic, ← h.given]
      unfold heldAfter
      split
      · rw [hhanded, List.append_nil, List.append_assoc]
      · rw [List.append_assoc]
  refine ⟨hkeeps, ?_, hpushed.burst⟩
  by_cases hflushes : l.Flushes w held
  · left
    rw [hkeeps.pending_eq, heldAfter, if_pos hflushes]
  · -- the burst is not full, so the time-out test has read the clock
    obtain ⟨hfull, hlate⟩ := not_or.mp hflushes
    right
    rw [hkeeps.pending_eq, heldAfter, if_neg hflushes, hpushed.burst, hpushed.past, hpushed.clock,
      if_neg hflushes, if_neg hflushes, ticksTested, if_neg hfull]
    refine ⟨?_, Int.not_le.mp hlate, rfl⟩
    rw [List.length_append, List.length_singleton]
    exact Int.not_le.mp hfull

/-- Setting the burst size leaves the buffer alone. -/
theorem Keeps.setBurst (h : Keeps handed start given held l w) (b : JInt) :
    Keeps handed start given held { l with burst := b } w :=
  ⟨⟨h.filled.count, h.filled.mbuf_pointer, h.filled.words⟩, h.fits, h.given, h.start_pointer,
    h.bounded⟩

/-- At the default burst size, a call leaves room for the next. -/
theorem Keeps.hasRoom {w₀ : World} (h : Keeps handed start given held l w) (hwaits : Waits w₀ l w)
    (hburst : l.burst = 32) : l.HasRoom := by
  have h32 : l.burst.toInt = 32 := by
    rw [hburst]
    rfl
  unfold HasRoom
  rw [h.filled.count_toInt h.fits, ← h.pending_eq, h32]
  -- nothing waits, or fewer mbufs than a burst
  rcases hwaits with hnil | ⟨hlen, -, -⟩
  · rw [hnil]
    decide
  · rw [h32] at hlen
    exact ⟨hlen, hlen⟩

end step

end BurstList

/-! ## Section 3: Runs at the default burst size -/

section default
variable {σ : Type} {call : σ → Packet → World → σ × World} {list : σ → BurstList}
  {native : Addr → World → World} {emit : List Mbuf → Nic → Nic} {handed : Nic → List Mbuf}
  {start : JLong}
  (hcall : ∀ s p w, (list (call s p w).1, (call s p w).2) = (list s).add native p w)
  (hdrains : Drains native emit) (hhanded : ∀ ms nic, handed (emit ms nic) = handed nic ++ ms)
include hcall hdrains hhanded

/-- **Step lemma** for one object. -/
theorem call_keeps {s : σ × World} {given held : List Mbuf}
    (h : BurstList.Keeps handed start given held (list s.1) s.2) (hburst : (list s.1).burst = 32)
    (hroom : (list s.1).HasRoom) (p : Packet) : ∃ held',
    BurstList.Keeps handed start (given ++ [p.mbuf_pointer]) held' (list (call s.1 p s.2).1)
      (call s.1 p s.2).2 ∧
    (list (call s.1 p s.2).1).burst = 32 ∧
    BurstList.Waits s.2 (list (call s.1 p s.2).1) (call s.1 p s.2).2 := by
  obtain ⟨hkeeps, hwaits, hsame⟩ := h.add hdrains hhanded hroom p
  rw [← hcall] at hkeeps hwaits hsame
  exact ⟨_, hkeeps, hsame.trans hburst, hwaits⟩

/-- **Run lemma**: the invariant, the burst size and room for one more. -/
theorem sendAll_keeps (ps : List Packet) (s : σ × World) (given held : List Mbuf)
    (h : BurstList.Keeps handed start given held (list s.1) s.2) (hburst : (list s.1).burst = 32)
    (hroom : (list s.1).HasRoom) : ∃ held',
    BurstList.Keeps handed start (given ++ ps.map Packet.mbuf_pointer) held'
      (list (sendAll call ps s).1) (sendAll call ps s).2 ∧
    (list (sendAll call ps s).1).burst = 32 ∧ (list (sendAll call ps s).1).HasRoom := by
  -- the room that the next call needs is what this one leaves
  induction ps generalizing s given held with
  | nil =>
    rw [List.map_nil, List.append_nil]
    exact ⟨held, h, hburst, hroom⟩
  | cons p ps ih =>
    obtain ⟨held₁, hkeeps, hburst₁, hwaits⟩ := call_keeps hcall hdrains hhanded h hburst hroom p
    obtain ⟨held', hkeeps', hrest⟩ :=
      ih (call s.1 p s.2) _ _ hkeeps hburst₁ (hkeeps.hasRoom hwaits hburst₁)
    rw [List.append_assoc] at hkeeps'
    exact ⟨held', hkeeps', hrest⟩

theorem sendAll_batches (ps : List Packet) {s : σ × World}
    (h : BurstList.Keeps handed start [] [] (list s.1) s.2) (hburst : (list s.1).burst = 32)
    (hroom : (list s.1).HasRoom) :
    BurstList.Batches call list handed start ps (sendAll call ps s) := by
  -- what holds after any sequence also holds after one call more
  obtain ⟨held, hkeeps, hburst', hroom'⟩ :=
    sendAll_keeps hcall hdrains hhanded ps s [] [] h hburst hroom
  refine ⟨hkeeps.conserves, ?_, ?_⟩
  · intro p
    obtain ⟨-, -, hsame, -⟩ := call_keeps hcall hdrains hhanded hkeeps hburst' hroom' p
    exact hsame
  · intro p
    obtain ⟨-, -, -, hwaits⟩ := call_keeps hcall hdrains hhanded hkeeps hburst' hroom' p
    exact hwaits

end default

theorem sent_transmit (ms : List Mbuf) (nic : Nic) :
    sent (Nic.transmit ms nic) = sent nic ++ ms := by
  rw [sent, Nic.transmit, presented_append]
  congr 1
  exact List.append_nil ms

theorem freed_release (ms : List Mbuf) (nic : Nic) :
    (Nic.release ms nic).freed = nic.freed ++ ms := rfl

section new
variable (start : JLong) (mem : Memory 64) (accept : Nat → (n : Nat) → Fin (n + 1))
  (reading : Nat → JLong)

theorem PacketSender.new_keeps :
    BurstList.Keeps sent start [] [] (new start (World.boot mem accept reading)).1.toBurstList
      (new start (World.boot mem accept reading)).2 := by
  apply BurstList.new_keeps
  intro nic htx _
  rw [sent, htx]
  rfl

theorem PacketFreeer.new_keeps :
    BurstList.Keeps Nic.freed start [] [] (new start (World.boot mem accept reading)).1.toBurstList
      (new start (World.boot mem accept reading)).2 :=
  BurstList.new_keeps (fun _ _ hfreed => hfreed) start mem accept reading

/-- **Main**, default burst size: for every sequence of packets and every
    clock, a new sender and a new freeer hand over what they are given, once
    and in order, within their buffer, and let nothing wait beyond a second
    that a call has seen to be over. -/
theorem default_burst_batches (ps : List Packet) :
    BurstList.Batches PacketSender.sendPacket PacketSender.toBurstList sent start ps
      (sendAll PacketSender.sendPacket ps
        (PacketSender.new start (World.boot mem accept reading))) ∧
    BurstList.Batches PacketFreeer.freePacket PacketFreeer.toBurstList Nic.freed start ps
      (sendAll PacketFreeer.freePacket ps
        (PacketFreeer.new start (World.boot mem accept reading))) := by
  have hroom : (0 : JInt).toInt < (32 : JInt).toInt ∧ (0 : JInt).toInt < 32 := by decide
  constructor
  · exact sendAll_batches (fun _ _ _ => rfl) nat_send_packets_drains sent_transmit ps
      (PacketSender.new_keeps start mem accept reading) rfl hroom
  · exact sendAll_batches (fun _ _ _ => rfl) nat_free_packets_drains freed_release ps
      (PacketFreeer.new_keeps start mem accept reading) rfl hroom

end new

/-! ## Section 4: Runs with changing burst sizes -/

/-- What a sender or freeer shows for its calls: they are those of its list. -/
structure Exposes {σ : Type} (exec : BurstCall → σ × World → σ × World) (list : σ → BurstList)
    (native : Addr → World → World) : Prop where
  add : ∀ s p, (list (exec (.add p) s).1, (exec (.add p) s).2) = (list s.1).add native p s.2
  setBurst : ∀ s b, (list (exec (.setBurst b) s).1, (exec (.setBurst b) s).2) =
    ({ list s.1 with burst := b }, s.2)

theorem PacketSender.exec_exposes :
    Exposes PacketSender.exec PacketSender.toBurstList nat_send_packets :=
  ⟨fun _ _ => rfl, fun _ _ => rfl⟩

theorem PacketFreeer.exec_exposes :
    Exposes PacketFreeer.exec PacketFreeer.toBurstList nat_free_packets :=
  ⟨fun _ _ => rfl, fun _ _ => rfl⟩

section runs
variable {σ : Type} {exec : BurstCall → σ × World → σ × World} {list : σ → BurstList}
  {native : Addr → World → World} {emit : List Mbuf → Nic → Nic} {handed : Nic → List Mbuf}
  {start : JLong} (hexposes : Exposes exec list native) (hdrains : Drains native emit)
  (hhanded : ∀ ms nic, handed (emit ms nic) = handed nic ++ ms)
include hexposes hdrains hhanded

/-- **Run lemma**: while there is room for each packet, nothing is lost. -/
theorem runCalls_keeps (calls : List BurstCall) (s : σ × World) (given held : List Mbuf)
    (h : BurstList.Keeps handed start given held (list s.1) s.2)
    (hroom : RoomForEach exec list calls s) : ∃ held',
    BurstList.Keeps handed start (given ++ BurstCall.given calls) held'
      (list (runCalls exec calls s).1) (runCalls exec calls s).2 := by
  induction calls generalizing s given held with
  | nil =>
    rw [BurstCall.given, List.append_nil]
    exact ⟨held, h⟩
  | cons c calls ih =>
    obtain ⟨hhere, hrest⟩ := hroom
    cases c with
    | add p =>
      obtain ⟨hkeeps, -, -⟩ := h.add hdrains hhanded (hhere p rfl) p
      rw [← hexposes.add] at hkeeps
      obtain ⟨held', hkeeps'⟩ := ih (exec (.add p) s) _ _ hkeeps hrest
      rw [List.append_assoc] at hkeeps'
      exact ⟨held', hkeeps'⟩
    | setBurst b =>
      -- needs no room: the buffer and the mbufs stay as they are
      have hkeeps := h.setBurst b
      have hlist := congrArg Prod.fst (hexposes.setBurst s b)
      have hworld := congrArg Prod.snd (hexposes.setBurst s b)
      simp only at hlist hworld
      rw [← hlist, ← hworld] at hkeeps
      exact ih (exec (.setBurst b) s) _ _ hkeeps hrest

omit hexposes hdrains hhanded in
/-- There is room before each packet of a first part of a run. -/
theorem RoomForEach.take {calls : List BurstCall} {s : σ × World}
    (h : RoomForEach exec list calls s) (k : Nat) : RoomForEach exec list (calls.take k) s := by
  induction calls generalizing s k with
  | nil =>
    rw [List.take_nil]
    exact h
  | cons c calls ih =>
    cases k with
    | zero => exact trivial
    | succ k => exact ⟨h.1, ih h.2 k⟩

end runs

/-- **Main**, changing burst size: for every interleaving of packets and burst
    sizes, and every clock, nothing is lost, repeated or stored outside the
    buffer up to any point of the run, if there is room before each packet. -/
theorem changing_burst_conserves (start : JLong) (mem : Memory 64)
    (accept : Nat → (n : Nat) → Fin (n + 1)) (reading : Nat → JLong) (calls : List BurstCall) :
    (RoomForEach PacketSender.exec PacketSender.toBurstList calls
        (PacketSender.new start (World.boot mem accept reading)) →
      ∀ k ≤ calls.length,
        let s := runCalls PacketSender.exec (calls.take k)
          (PacketSender.new start (World.boot mem accept reading))
        s.1.Conserves sent start (BurstCall.given (calls.take k)) s.2) ∧
    (RoomForEach PacketFreeer.exec PacketFreeer.toBurstList calls
        (PacketFreeer.new start (World.boot mem accept reading)) →
      ∀ k ≤ calls.length,
        let s := runCalls PacketFreeer.exec (calls.take k)
          (PacketFreeer.new start (World.boot mem accept reading))
        s.1.Conserves Nic.freed start (BurstCall.given (calls.take k)) s.2) := by
  constructor
  · intro hroom k _
    obtain ⟨held, hkeeps⟩ := runCalls_keeps PacketSender.exec_exposes nat_send_packets_drains
      sent_transmit _ _ _ _ (PacketSender.new_keeps start mem accept reading) (hroom.take k)
    exact hkeeps.conserves
  · intro hroom k _
    obtain ⟨held, hkeeps⟩ := runCalls_keeps PacketFreeer.exec_exposes nat_free_packets_drains
      freed_release _ _ _ _ (PacketFreeer.new_keeps start mem accept reading) (hroom.take k)
    exact hkeeps.conserves

/-- Three packets; before the third one the burst size is set. -/
def threePackets (burst : JInt) : List BurstCall :=
  [.add ⟨0x1000, 0⟩, .add ⟨0x1040, 0⟩, .setBurst burst, .add ⟨0x1080, 0⟩]

/-- A burst size of 16 leaves room for the third packet. -/
theorem changing_burst_conserves_sixteen :
    BurstList.Conserves sent 0 [0x1000, 0x1040, 0x1080]
      (runCalls PacketSender.exec (threePackets 16)
        (PacketSender.new 0 (World.quiet fun _ => 0))).1.toBurstList
      (runCalls PacketSender.exec (threePackets 16)
        (PacketSender.new 0 (World.quiet fun _ => 0))).2 ∧
    BurstList.Conserves Nic.freed 0 [0x1000, 0x1040, 0x1080]
      (runCalls PacketFreeer.exec (threePackets 16)
        (PacketFreeer.new 0 (World.quiet fun _ => 0))).1.toBurstList
      (runCalls PacketFreeer.exec (threePackets 16)
        (PacketFreeer.new 0 (World.quiet fun _ => 0))).2 := by
  obtain ⟨hsend, hfree⟩ := changing_burst_conserves 0 (fun _ => 0) (fun _ n => Fin.last n)
    (fun _ => 0) (threePackets 16)
  constructor
  · exact hsend ⟨fun _ _ => by decide, fun _ _ => by decide, nofun, fun _ _ => by decide, trivial⟩
      4 (by decide)
  · exact hfree ⟨fun _ _ => by decide, fun _ _ => by decide, nofun, fun _ _ => by decide, trivial⟩
      4 (by decide)

/-- With a burst size of 1 the third call hands over the first mbuf, which goes
    on waiting, and the third mbuf is forgotten. -/
theorem smaller_burst_repeats_mbuf :
    sent (runCalls PacketSender.exec (threePackets 1)
        (PacketSender.new 0 (World.quiet fun _ => 0))).2.nic = [0x1000] ∧
    (runCalls PacketSender.exec (threePackets 1)
        (PacketSender.new 0 (World.quiet fun _ => 0))).1.pending
      (runCalls PacketSender.exec (threePackets 1)
        (PacketSender.new 0 (World.quiet fun _ => 0))).2.mem = [0x1000, 0x1040] ∧
    ¬ BurstList.Conserves sent 0 [0x1000, 0x1040, 0x1080]
      (runCalls PacketSender.exec (threePackets 1)
        (PacketSender.new 0 (World.quiet fun _ => 0))).1.toBurstList
      (runCalls PacketSender.exec (threePackets 1)
        (PacketSender.new 0 (World.quiet fun _ => 0))).2 ∧
    ¬ BurstList.Conserves Nic.freed 0 [0x1000, 0x1040, 0x1080]
      (runCalls PacketFreeer.exec (threePackets 1)
        (PacketFreeer.new 0 (World.quiet fun _ => 0))).1.toBurstList
      (runCalls PacketFreeer.exec (threePackets 1)
        (PacketFreeer.new 0 (World.quiet fun _ => 0))).2 := by
  refine ⟨by decide +kernel, by decide +kernel, ?_, ?_⟩
  · intro h
    exact absurd h.given (by decide +kernel)
  · intro h
    exact absurd h.given (by decide +kernel)

end PacketPro.DpdkJava
