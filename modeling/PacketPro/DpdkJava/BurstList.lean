import PacketPro.Jvm.Packet

/-! # `DpdkJava/PacketSender.java` and `PacketFreeer.java`

    Both classes collect mbuf pointers in a native buffer and hand the buffer
    to one native function when it is full, or when a packet arrives more than
    a second after the last hand-over. They differ in that native function
    only, so `BurstList` has the fields and the code they share.

    **Step lemma** (`BurstList.add_pushed`): while there is room below the burst
    size, adding a packet is a `push` of a batching queue. Either the new mbuf
    joins the ones held, or all of them go to the native side as one batch, and
    the count and the clock say which. `BurstList.add_spec` is the case of the
    default burst size, where there is always room.
-/

open ByteMem

namespace PacketPro.DpdkJava

/-! ## Section 1: Definitions -/

def DEFAULT_SEND_BURST : JInt := 32
def DEFAULT_FREE_BURST : JInt := 32
def MILLI_SECOND : Int := 1000

/-- The fields that `PacketSender` and `PacketFreeer` have in common. -/
structure BurstList where
  ua : UnsafeAccess
  /-- `past_sent`, `past_freed`. -/
  past : JLong
  /-- `send_burst`, `free_burst`. -/
  burst : JInt
  current_count : JInt
  start_pointer : JLong
  mbuf_pointer : JLong

namespace BurstList

/-- The constructors, given the address that `allocateMemory` returns. -/
def new (burst : JInt) (start_pointer : JLong) (w : World) : BurstList × World :=
  let (past, w) := w.currentTimeMillis
  ({ ua := UnsafeAccess.new, past, burst, current_count := 0, start_pointer
     mbuf_pointer := start_pointer + 2 }, w)

def isTimedOut (l : BurstList) (w : World) : Bool × World :=
  let (now, w) := w.currentTimeMillis
  (decide ((now - l.past).toInt ≥ MILLI_SECOND), w)

/-- Store the mbuf behind the ones already there. -/
def enlist (l : BurstList) (p : Packet) (w : World) : BurstList × World :=
  let ua := l.ua.setCurrentPointer
    (l.mbuf_pointer + UnsafeAccess.longSize * l.current_count.signExtend 64)
  let (ua, w) := ua.putLong p.mbuf_pointer w
  ({ l with ua, current_count := l.current_count + 1 }, w)

/-- `sendBurst`, `freeBurst`: write the count, then call the native side. -/
def flushBurst (native : Addr → World → World) (l : BurstList) (w : World) : BurstList × World :=
  let num := if l.current_count.toInt > l.burst.toInt then l.burst else l.current_count
  let ua := l.ua.setCurrentPointer l.start_pointer
  let (ua, w) := ua.putShort num w
  let w := native l.start_pointer w
  ({ l with ua, current_count := l.current_count - num }, w)

/-- `sendPacket`, `freePacket`. -/
def add (native : Addr → World → World) (l : BurstList) (p : Packet) (w : World) :
    BurstList × World :=
  let (l, w) := l.enlist p w
  -- the clock is read only when the list is not full
  let (due, w) :=
    if l.current_count.toInt ≥ l.burst.toInt then (true, w) else l.isTimedOut w
  if due then
    let (l, w) := l.flushBurst native w
    let (now, w) := w.currentTimeMillis
    ({ l with past := now }, w)
  else
    (l, w)

end BurstList

/-- The statistics of a sender are never updated by the source. -/
structure PacketSender extends BurstList where
  packet_all : JLong
  packet_all_size : JLong
  packet_interval : JLong
  packet_interval_size : JLong

namespace PacketSender

def new (start_pointer : JLong) (w : World) : PacketSender × World :=
  let (l, w) := BurstList.new DEFAULT_SEND_BURST start_pointer w
  ({ toBurstList := l, packet_all := 0, packet_all_size := 0, packet_interval := 0
     packet_interval_size := 0 }, w)

def setSendBurst (ps : PacketSender) (send_burst : JInt) : PacketSender :=
  { ps with burst := send_burst }

def sendPacket (ps : PacketSender) (p : Packet) (w : World) : PacketSender × World :=
  let (l, w) := ps.toBurstList.add nat_send_packets p w
  ({ ps with toBurstList := l }, w)

end PacketSender

structure PacketFreeer extends BurstList

namespace PacketFreeer

def new (start_pointer : JLong) (w : World) : PacketFreeer × World :=
  let (l, w) := BurstList.new DEFAULT_FREE_BURST start_pointer w
  (⟨l⟩, w)

def setFreeBurst (pf : PacketFreeer) (free_burst : JInt) : PacketFreeer :=
  { pf with burst := free_burst }

def freePacket (pf : PacketFreeer) (p : Packet) (w : World) : PacketFreeer × World :=
  let (l, w) := pf.toBurstList.add nat_free_packets p w
  (⟨l⟩, w)

end PacketFreeer

/-! ## Section 2: What the buffer holds -/

namespace BurstList

/-- The allocated buffer. -/
def region (l : BurstList) : Region 64 := ⟨l.start_pointer, 2 + 8 * 32⟩

/-- The mbufs that wait in the buffer. -/
def pending (l : BurstList) (m : Memory 64) : List Mbuf :=
  wordsAt m (cell l.start_pointer 2) l.current_count.toNat

/-- The buffer holds the mbufs `held`. -/
structure Filled (l : BurstList) (m : Memory 64) (held : List Mbuf) : Prop where
  count : l.current_count = BitVec.ofNat 32 held.length
  mbuf_pointer : l.mbuf_pointer = cell l.start_pointer 2
  words : wordsAt m (cell l.start_pointer 2) held.length = held

/-- At the default burst size, the buffer holds the mbufs `held`. -/
structure Buffers (l : BurstList) (m : Memory 64) (held : List Mbuf) : Prop
    extends l.Filled m held where
  burst : l.burst = 32

theorem Filled.pending_eq {l : BurstList} {m : Memory 64} {held : List Mbuf}
    (h : l.Filled m held) (hlen : held.length < 2 ^ 32) : l.pending m = held := by
  rw [pending, h.count, BitVec.toNat_ofNat, Nat.mod_eq_of_lt hlen]
  exact h.words

/-- The count as the Java comparisons see it. -/
theorem Filled.count_toInt {l : BurstList} {m : Memory 64} {held : List Mbuf}
    (h : l.Filled m held) (hlen : held.length ≤ 32) : l.current_count.toInt = held.length := by
  rw [h.count, UnsafeAccess.toInt_ofNat (by omega)]

theorem new_buffers (start_pointer : JLong) (w : World) :
    (new 32 start_pointer w).1.Buffers (new 32 start_pointer w).2.mem [] :=
  ⟨⟨rfl, rfl, rfl⟩, rfl⟩

section step
variable {l : BurstList} {w : World} {held : List Mbuf}

/-- Where the next mbuf is stored. -/
theorem enlist_address (h : l.Filled w.mem held) (hlen : held.length < 32) :
    l.mbuf_pointer + UnsafeAccess.longSize * l.current_count.signExtend 64 =
      cell (cell l.start_pointer 2) (8 * held.length) := by
  have hmul : UnsafeAccess.longSize * BitVec.ofNat 64 held.length =
      BitVec.ofNat 64 (8 * held.length) := (BitVec.ofNat_mul 8 held.length).symm
  rw [h.mbuf_pointer, h.count, UnsafeAccess.signExtend_ofNat (by omega), hmul]
  rfl

theorem enlist_mem (h : l.Filled w.mem held) (hlen : held.length < 32) (p : Packet) :
    (l.enlist p w).2.mem =
      storeLE w.mem (cell (cell l.start_pointer 2) (8 * held.length)) 8 p.mbuf_pointer.toNat := by
  have haddr := enlist_address h hlen
  unfold enlist UnsafeAccess.putLong
  simp only [haddr, UnsafeAccess.setCurrentPointer_address, World.store_mem]

theorem enlist_filled (h : l.Filled w.mem held) (hlen : held.length < 32) (p : Packet) :
    (l.enlist p w).1.Filled (l.enlist p w).2.mem (held ++ [p.mbuf_pointer]) := by
  have hcount : (held ++ [p.mbuf_pointer]).length = held.length + 1 := by simp
  refine ⟨?_, h.mbuf_pointer, ?_⟩
  · show l.current_count + 1 = _
    rw [h.count, hcount, BitVec.ofNat_add]
    rfl
  · rw [enlist_mem h hlen, hcount]
    exact (wordsAt_storeLE_end w.mem _ held.length _ (by omega)).trans
      (congrArg (· ++ [p.mbuf_pointer]) h.words)

/-- The slot of the next mbuf lies in the buffer. -/
theorem slot_subset (l : BurstList) {n : Nat} (hn : n < 32) :
    (⟨cell (cell l.start_pointer 2) (8 * n), 8⟩ : Region 64) ⊆ l.region := by
  have hcell : cell (cell l.start_pointer 2) (8 * n) = cell l.start_pointer (2 + 8 * n) :=
    add_ofNat_add_ofNat _ _ _
  rw [hcell]
  exact cell_subset l.start_pointer _ _ 8 (by omega) (by decide)

theorem enlist_confined {allowed : AccessKind → Addr → Prop} (h : l.Filled w.mem held)
    (hlen : held.length < 32) (hallowed : ∀ b, b ∈ l.region → allowed .store b) (p : Packet) :
    World.Confined allowed w (l.enlist p w).2 := by
  have haddr := enlist_address h hlen
  unfold enlist
  simp only [haddr]
  apply UnsafeAccess.putLong_confined
  intro b hb
  rw [UnsafeAccess.setCurrentPointer_address] at hb
  exact hallowed b (slot_subset l hlen b hb)

/-! ### Flushing -/

/-- The world in which `flushBurst` calls the native side. -/
def counted (l : BurstList) (w : World) : World :=
  ((l.ua.setCurrentPointer l.start_pointer).putShort l.current_count w).2

theorem flushBurst_eq (native : Addr → World → World) (h : l.Filled w.mem held)
    (hlen : held.length ≤ 32) (hburst : (held.length : Int) ≤ l.burst.toInt) :
    l.flushBurst native w =
      ({ l with ua := (l.ua.setCurrentPointer l.start_pointer).advance 2, current_count := 0 },
        native l.start_pointer (l.counted w)) := by
  have hle : ¬ l.current_count.toInt > l.burst.toInt := by
    rw [h.count_toInt hlen]
    omega
  unfold flushBurst
  simp only [if_neg hle, BitVec.sub_self]
  rfl

theorem counted_mem (h : l.Filled w.mem held) (hlen : held.length ≤ 32) :
    (l.counted w).mem = storeLE w.mem l.start_pointer 2 held.length := by
  have hvalue : (l.current_count.setWidth 16).toNat = held.length := by
    rw [h.count, BitVec.toNat_setWidth, BitVec.toNat_ofNat]
    omega
  unfold counted UnsafeAccess.putShort
  simp only [hvalue, World.store_mem, UnsafeAccess.checkBounds_mem,
    UnsafeAccess.setCurrentPointer_address]

theorem counted_confined {allowed : AccessKind → Addr → Prop} (l : BurstList) (w : World)
    (hallowed : ∀ b, b ∈ l.region → allowed .store b) :
    World.Confined allowed w (l.counted w) := by
  apply UnsafeAccess.putShort_confined
  intro b hb
  rw [UnsafeAccess.setCurrentPointer_address] at hb
  exact hallowed b (Region.prefix_subset l.start_pointer (by decide) b hb)

/-- What a flush does, for any native function that drains the buffer. -/
theorem flushBurst_spec {native : Addr → World → World} {emit : List Mbuf → Nic → Nic}
    {allowed : AccessKind → Addr → Prop} (hdrains : Drains native emit)
    (h : l.Filled w.mem held) (hlen : held.length ≤ 32)
    (hburst : (held.length : Int) ≤ l.burst.toInt)
    (hallowed : ∀ kind b, b ∈ l.region → allowed kind b) :
    (l.flushBurst native w).1.Filled (l.flushBurst native w).2.mem [] ∧
    (l.flushBurst native w).1.burst = l.burst ∧
    (l.flushBurst native w).1.start_pointer = l.start_pointer ∧
    (l.flushBurst native w).2.mem = storeLE w.mem l.start_pointer 2 held.length ∧
    (l.flushBurst native w).2.nic = emit held w.nic ∧
    (l.flushBurst native w).2.clock = w.clock ∧
    (w.Safe allowed → (l.flushBurst native w).2.Safe allowed) := by
  -- the native side finds the count just written and the mbufs behind it
  obtain ⟨hload, hwords⟩ := count_stored h.words (by omega)
  rw [← counted_mem h hlen] at hload hwords
  have hcounted := counted_confined l w (hallowed .store)
  have hdrained := hdrains allowed l.start_pointer (l.counted w) held.length hload ?_
  · rw [hwords] at hdrained
    rw [flushBurst_eq native h hlen hburst]
    refine ⟨⟨rfl, h.mbuf_pointer, rfl⟩, rfl, rfl, ?_, ?_, ?_, ?_⟩
    · rw [hdrained.mem, counted_mem h hlen]
    · rw [hdrained.nic, hcounted.nic]
    · rw [hdrained.clock, hcounted.clock]
    · intro hs
      exact hdrained.safe (hcounted.safe hs)
  · intro b hb
    have hsub : 2 + 8 * held.length ≤ 2 + 8 * 32 := by omega
    exact hallowed .load b (Region.prefix_subset l.start_pointer hsub b hb)

/-! ### One packet -/

/-- The next clock value comes too late for the mbufs held to wait longer. -/
def Late (l : BurstList) (w : World) : Prop :=
  (w.clock.reading w.clock.ticks - l.past).toInt ≥ MILLI_SECOND

instance (l : BurstList) (w : World) : Decidable (l.Late w) :=
  inferInstanceAs (Decidable (_ ≥ _))

/-- One more mbuf makes a full burst. -/
def Full (l : BurstList) (held : List Mbuf) : Prop := l.burst.toInt ≤ held.length + 1

instance (l : BurstList) (held : List Mbuf) : Decidable (l.Full held) :=
  inferInstanceAs (Decidable (_ ≤ _))

/-- Whether a packet goes out at once, behind `held` others. -/
def Flushes (l : BurstList) (w : World) (held : List Mbuf) : Prop := l.Full held ∨ l.Late w

instance (l : BurstList) (w : World) (held : List Mbuf) : Decidable (l.Flushes w held) :=
  inferInstanceAs (Decidable (_ ∨ _))

/-- The clock after the time-out test, which is skipped for a full burst. -/
def ticksTested (l : BurstList) (w : World) (held : List Mbuf) : Nat :=
  if l.Full held then w.clock.ticks else w.clock.ticks + 1

/-- What adding the mbuf `m` does while the buffer holds `held`. -/
structure Pushed (emit : List Mbuf → Nic → Nic) (allowed : AccessKind → Addr → Prop)
    (l : BurstList) (w : World) (held : List Mbuf) (m : Mbuf) (l' : BurstList) (w' : World) :
    Prop where
  filled : l'.Filled w'.mem (if l.Flushes w held then [] else held ++ [m])
  burst : l'.burst = l.burst
  nic : w'.nic = if l.Flushes w held then emit (held ++ [m]) w.nic else w.nic
  past : l'.past = if l.Flushes w held then w.clock.reading (l.ticksTested w held) else l.past
  clock : w'.clock = ⟨w.clock.reading,
    if l.Flushes w held then l.ticksTested w held + 1 else l.ticksTested w held⟩
  start_pointer : l'.start_pointer = l.start_pointer
  mem : ∀ b, b ∉ l.region → w'.mem b = w.mem b
  safe : w.Safe allowed → w'.Safe allowed

/-- The test after the store: full, or else timed out. -/
theorem flushes_eq (h : l.Filled w.mem held) (hlen : held.length < 32) (p : Packet)
    (hclock : (l.enlist p w).2.clock = w.clock) :
    (if (l.enlist p w).1.current_count.toInt ≥ (l.enlist p w).1.burst.toInt then
      (true, (l.enlist p w).2) else (l.enlist p w).1.isTimedOut (l.enlist p w).2) =
    (decide (l.Flushes w held), { (l.enlist p w).2 with
      clock := ⟨w.clock.reading, l.ticksTested w held⟩ }) := by
  have hbuf := enlist_filled h hlen p
  have hcount : (held ++ [p.mbuf_pointer]).length = held.length + 1 := by simp
  have hge : (l.enlist p w).1.current_count.toInt ≥ (l.enlist p w).1.burst.toInt ↔
      l.Full held := by
    rw [hbuf.count_toInt (by omega), hcount]
    exact Iff.rfl
  unfold ticksTested
  by_cases hfull : l.Full held
  · have hflushes : l.Flushes w held := Or.inl hfull
    rw [if_pos (hge.mpr hfull), if_pos hfull, decide_eq_true hflushes, ← hclock]
  · have hlate : l.Flushes w held ↔ l.Late w := or_iff_right hfull
    rw [if_neg fun h' => hfull (hge.mp h'), if_neg hfull, decide_eq_decide.mpr hlate]
    unfold isTimedOut World.currentTimeMillis
    rw [hclock]
    rfl

/-- **Step lemma**: while there is room below the burst size and in the buffer,
    adding a packet is a push. The mbufs held and the new one go out as one
    batch exactly when the burst is full or overdue. -/
theorem add_pushed {native : Addr → World → World} {emit : List Mbuf → Nic → Nic}
    {allowed : AccessKind → Addr → Prop} (hdrains : Drains native emit)
    (h : l.Filled w.mem held) (hlen : held.length < 32)
    (hburst : (held.length : Int) < l.burst.toInt)
    (hallowed : ∀ kind b, b ∈ l.region → allowed kind b) (p : Packet) :
    Pushed emit allowed l w held p.mbuf_pointer (l.add native p w).1 (l.add native p w).2 := by
  have hbuf := enlist_filled h hlen p
  have hconf := enlist_confined h hlen (hallowed .store) p
  have hmem : ∀ b, b ∉ l.region → (l.enlist p w).2.mem b = w.mem b := by
    intro b hb
    rw [enlist_mem h hlen]
    exact storeLE_of_not_mem _ _ _ _ fun hin => hb (slot_subset l hlen b hin)
  have hcount : (held ++ [p.mbuf_pointer]).length = held.length + 1 := by simp
  unfold add
  simp only [flushes_eq h hlen p hconf.clock]
  by_cases hflushes : l.Flushes w held
  · -- everything held goes out, and the flush reads the clock once more
    simp only [decide_eq_true hflushes, if_true]
    have hbuf' : (l.enlist p w).1.Filled
        (World.mem { (l.enlist p w).2 with clock := ⟨w.clock.reading, l.ticksTested w held⟩ })
        (held ++ [p.mbuf_pointer]) := hbuf
    have hfits : ((held ++ [p.mbuf_pointer]).length : Int) ≤ (l.enlist p w).1.burst.toInt := by
      rw [hcount]
      exact hburst
    obtain ⟨hempty, hburst', hstart, hmem', hnic', hclock', hsafe'⟩ :=
      flushBurst_spec hdrains hbuf' (by omega) hfits hallowed
    constructor
    · rw [if_pos hflushes]
      exact ⟨hempty.count, hempty.mbuf_pointer, rfl⟩
    · exact hburst'
    · rw [if_pos hflushes, ← hconf.nic]
      exact hnic'
    · rw [if_pos hflushes]
      exact congrArg (fun c : Clock => c.reading c.ticks) hclock'
    · rw [if_pos hflushes]
      exact congrArg (fun c : Clock => Clock.mk c.reading (c.ticks + 1)) hclock'
    · exact hstart
    · intro b hb
      refine (congrFun hmem' b).trans ((storeLE_of_not_mem _ _ _ _ ?_).trans (hmem b hb))
      exact fun hin => hb (Region.prefix_subset l.start_pointer (by decide) b hin)
    · intro hs
      exact hsafe' (hconf.safe hs)
  · -- the packet waits: only the store and the time-out test have happened
    simp only [decide_eq_false hflushes, Bool.false_eq_true, if_false]
    constructor
    · rw [if_neg hflushes]
      exact hbuf
    · rfl
    · rw [if_neg hflushes]
      exact hconf.nic
    · rw [if_neg hflushes]
      rfl
    · rw [if_neg hflushes]
    · rfl
    · exact hmem
    · exact hconf.safe

/-! ### The default burst size -/

/-- The default burst is full when the buffer is. -/
theorem full_iff (hburst : l.burst = 32) (hlen : held.length < 32) :
    l.Full held ↔ held.length + 1 = 32 := by
  have h32 : l.burst.toInt = 32 := by
    rw [hburst]
    rfl
  unfold Full
  rw [h32]
  omega

/-- **Step lemma** at the default burst size, where there is always room. -/
theorem add_spec {native : Addr → World → World} {emit : List Mbuf → Nic → Nic}
    {allowed : AccessKind → Addr → Prop} (hdrains : Drains native emit)
    (h : l.Buffers w.mem held) (hlen : held.length < 32)
    (hallowed : ∀ kind b, b ∈ l.region → allowed kind b) (p : Packet) :
    Pushed emit allowed l w held p.mbuf_pointer (l.add native p w).1 (l.add native p w).2 := by
  have hburst : (held.length : Int) < l.burst.toInt := by
    rw [h.burst]
    show _ < (32 : Int)
    omega
  exact add_pushed hdrains h.toFilled hlen hburst hallowed p

/-- The default burst size stays. -/
theorem Pushed.buffers {emit : List Mbuf → Nic → Nic} {allowed : AccessKind → Addr → Prop}
    {m : Mbuf} {l' : BurstList} {w' : World} (h : Pushed emit allowed l w held m l' w')
    (hburst : l.burst = 32) :
    l'.Buffers w'.mem (if l.Flushes w held then [] else held ++ [m]) :=
  ⟨h.filled, h.burst.trans hburst⟩

end step

end BurstList

end PacketPro.DpdkJava
