import PacketPro.Jvm.Packet
import PacketPro.Framework.Batching

/-! # `DpdkJava-R/PacketListCreate.java`, `PacketSender.java`, `PacketFreeer.java`

    In the second version of the framework the native buffer is an object of
    its own. Its cursor stays behind the last mbuf between calls, is moved to
    the front to write the count, and returns to the first slot on `reset`.
    Sender and freeer keep one such list each and differ in the native
    function they hand it to.

    **Step lemma** (`BurstQueue.add_spec`): adding a packet is a `push` of a
    batching queue that flushes exactly when its 16th element arrives.
-/

open ByteMem Batching

namespace PacketPro.DpdkJavaR

/-! ## Section 1: Definitions -/

structure PacketListCreate where
  startPointer : JLong
  max_size : JInt
  current_size : JInt
  ua : UnsafeAccess

namespace PacketListCreate

/-- The number of bytes that the constructor allocates. -/
def allocated (max_size : JInt) : JInt := 8 * max_size + 2

/-- The constructor, given the address that `allocateMemory` returns. -/
def new (max_size : JInt) (startPointer : JLong) : PacketListCreate where
  startPointer := startPointer
  max_size := max_size
  current_size := 0
  ua := UnsafeAccess.new.setCurrentPointer (startPointer + 2)

def add (l : PacketListCreate) (p : Packet) (w : World) : PacketListCreate × World :=
  let (ua, w) := l.ua.putLong p.mbuf_pointer w
  ({ l with ua, current_size := l.current_size + 1 }, w)

def size (l : PacketListCreate) : JInt := l.current_size

def reset (l : PacketListCreate) : PacketListCreate :=
  { l with current_size := 0, ua := l.ua.setCurrentPointer (l.startPointer + 2) }

def getNativePointer (l : PacketListCreate) (w : World) : JLong × PacketListCreate × World :=
  let ua := l.ua.setCurrentPointer l.startPointer
  let (ua, w) := ua.putShort l.current_size w
  (l.startPointer, { l with ua }, w)

end PacketListCreate

def DEFAULT_SEND_BURST : JInt := 16
def DEFAULT_FREE_BURST : JInt := 16

/-- What `PacketSender` and `PacketFreeer` have in common. -/
structure BurstQueue where
  /-- `send_burst`, `free_burst`. -/
  burst : JInt
  list : PacketListCreate

namespace BurstQueue

def new (burst : JInt) (startPointer : JLong) : BurstQueue :=
  ⟨burst, PacketListCreate.new burst startPointer⟩

/-- `sendBurst`, `freeBurst`. -/
def flushBurst (native : Addr → World → World) (q : BurstQueue) (w : World) : BurstQueue × World :=
  let (pointer, list, w) := q.list.getNativePointer w
  let w := native pointer w
  ({ q with list := list.reset }, w)

/-- `sendPacket`, `freePacket`. -/
def add (native : Addr → World → World) (q : BurstQueue) (p : Packet) (w : World) :
    BurstQueue × World :=
  let (list, w) := q.list.add p w
  let q := { q with list }
  if q.list.size = q.burst then q.flushBurst native w else (q, w)

end BurstQueue

/-- The statistics and `past_sent` are never updated by the source. -/
structure PacketSender extends BurstQueue where
  past_sent : JLong
  packet_all : JLong
  packet_all_size : JLong
  packet_interval : JLong
  packet_interval_size : JLong

namespace PacketSender

def new (startPointer : JLong) (w : World) : PacketSender × World :=
  let (past_sent, w) := w.currentTimeMillis
  ({ toBurstQueue := BurstQueue.new DEFAULT_SEND_BURST startPointer, past_sent, packet_all := 0
     packet_all_size := 0, packet_interval := 0, packet_interval_size := 0 }, w)

def sendPacket (ps : PacketSender) (p : Packet) (w : World) : PacketSender × World :=
  let (q, w) := ps.toBurstQueue.add nat_send_packets p w
  ({ ps with toBurstQueue := q }, w)

end PacketSender

structure PacketFreeer extends BurstQueue where
  past_freed : JLong

namespace PacketFreeer

def new (startPointer : JLong) (w : World) : PacketFreeer × World :=
  let (past_freed, w) := w.currentTimeMillis
  ({ toBurstQueue := BurstQueue.new DEFAULT_FREE_BURST startPointer, past_freed }, w)

def freePacket (pf : PacketFreeer) (p : Packet) (w : World) : PacketFreeer × World :=
  let (q, w) := pf.toBurstQueue.add nat_free_packets p w
  ({ pf with toBurstQueue := q }, w)

end PacketFreeer

/-! ## Section 2: What the list holds -/

namespace PacketListCreate

/-- The list holds the mbufs `held`, and its cursor stands behind them. -/
structure Buffers (l : PacketListCreate) (m : Memory 64) (held : List Mbuf) : Prop where
  count : l.current_size = BitVec.ofNat 32 held.length
  cursor : l.ua.At (cell l.startPointer 2) (8 * held.length)
  words : wordsAt m (cell l.startPointer 2) held.length = held

/-- The mbufs in the list. -/
def mbufs (l : PacketListCreate) (m : Memory 64) : List Mbuf :=
  wordsAt m (cell l.startPointer 2) l.current_size.toNat

theorem Buffers.mbufs_eq {l : PacketListCreate} {m : Memory 64} {held : List Mbuf}
    (h : l.Buffers m held) (hlen : held.length < 2 ^ 16) : l.mbufs m = held := by
  rw [mbufs, h.count, BitVec.toNat_ofNat, Nat.mod_eq_of_lt (by omega)]
  exact h.words

/-- The allocated bytes of a list for `n` mbufs. -/
def region (l : PacketListCreate) (n : Nat) : Region 64 := ⟨l.startPointer, 2 + 8 * n⟩

theorem new_buffers (max_size : JInt) (startPointer : JLong) (m : Memory 64) :
    (new max_size startPointer).Buffers m [] := by
  refine ⟨rfl, ?_, rfl⟩
  exact UnsafeAccess.setCurrentPointer_at UnsafeAccess.new (cell startPointer 2)

/-- What the list holds depends on the bytes of its region only. -/
theorem Buffers.congr {l : PacketListCreate} {m m' : Memory 64} {held : List Mbuf} {n : Nat}
    (h : l.Buffers m held) (hlen : held.length ≤ n) (hn : n < 2 ^ 16)
    (hm : ∀ b, b ∈ l.region n → m' b = m b) : l.Buffers m' held := by
  refine ⟨h.count, h.cursor, ?_⟩
  have hkept : wordsAt m' (cell l.startPointer 2) held.length =
      wordsAt m (cell l.startPointer 2) held.length := by
    apply wordsAt_congr (by omega)
    intro b hb
    exact hm b (cell_subset l.startPointer _ 2 _ (by omega) (by omega) b hb)
  rw [hkept]
  exact h.words

section step
variable {l : PacketListCreate} {w : World} {held : List Mbuf}

theorem cursor_address (h : l.Buffers w.mem held) (hlen : held.length < 2 ^ 16) :
    l.ua.address = cell (cell l.startPointer 2) (8 * held.length) :=
  h.cursor.address (by omega)

theorem add_mem (h : l.Buffers w.mem held) (hlen : held.length < 2 ^ 16) (p : Packet) :
    (l.add p w).2.mem =
      storeLE w.mem (cell (cell l.startPointer 2) (8 * held.length)) 8 p.mbuf_pointer.toNat := by
  have haddr := cursor_address h hlen
  unfold add UnsafeAccess.putLong
  simp only [haddr, World.store_mem]

theorem add_buffers (h : l.Buffers w.mem held) (hlen : held.length < 2 ^ 16) (p : Packet) :
    (l.add p w).1.Buffers (l.add p w).2.mem (held ++ [p.mbuf_pointer]) := by
  have hcount : (held ++ [p.mbuf_pointer]).length = held.length + 1 := by simp
  refine ⟨?_, ?_, ?_⟩
  · show l.current_size + 1 = _
    rw [h.count, hcount, BitVec.ofNat_add]
    rfl
  · rw [hcount]
    exact h.cursor.advance 8
  · rw [add_mem h hlen, hcount]
    exact (wordsAt_storeLE_end w.mem _ held.length _ (by omega)).trans
      (congrArg (· ++ [p.mbuf_pointer]) h.words)

/-- The slot of the next mbuf lies in the buffer. -/
theorem slot_subset (l : PacketListCreate) {k n : Nat} (hk : k < n) (hn : n < 2 ^ 16) :
    (⟨cell (cell l.startPointer 2) (8 * k), 8⟩ : Region 64) ⊆ l.region n := by
  have hcell : cell (cell l.startPointer 2) (8 * k) = cell l.startPointer (2 + 8 * k) :=
    add_ofNat_add_ofNat _ _ _
  rw [hcell]
  exact cell_subset l.startPointer _ _ 8 (by omega) (by omega)

/-- The count is written in the first two bytes of the buffer. -/
theorem count_subset (l : PacketListCreate) (n : Nat) :
    (⟨l.startPointer, 2⟩ : Region 64) ⊆ l.region n :=
  Region.prefix_subset l.startPointer (by omega)

theorem add_confined {allowed : AccessKind → Addr → Prop} {n : Nat} (h : l.Buffers w.mem held)
    (hlen : held.length < n) (hn : n < 2 ^ 16)
    (hallowed : ∀ b, b ∈ l.region n → allowed .store b) (p : Packet) :
    World.Confined allowed w (l.add p w).2 := by
  apply UnsafeAccess.putLong_confined
  intro b hb
  rw [cursor_address h (by omega)] at hb
  exact hallowed b (slot_subset l hlen hn b hb)

/-! ### The native view -/

theorem getNativePointer_mem_of_count {n : Nat} (hcount : l.current_size = BitVec.ofNat 32 n)
    (hn : n < 2 ^ 16) :
    (l.getNativePointer w).2.2.mem = storeLE w.mem l.startPointer 2 n := by
  have hvalue : (l.current_size.setWidth 16).toNat = n := by
    rw [hcount, BitVec.toNat_setWidth, BitVec.toNat_ofNat]
    omega
  unfold getNativePointer UnsafeAccess.putShort
  simp only [hvalue, World.store_mem, UnsafeAccess.checkBounds_mem,
    UnsafeAccess.setCurrentPointer_address]

theorem getNativePointer_mem (h : l.Buffers w.mem held) (hlen : held.length < 2 ^ 16) :
    (l.getNativePointer w).2.2.mem = storeLE w.mem l.startPointer 2 held.length :=
  getNativePointer_mem_of_count h.count hlen

/-- **The native view of a list**: the count, then the mbufs it holds. -/
theorem getNativePointer_decodes (h : l.Buffers w.mem held) (hlen : held.length < 2 ^ 16) :
    loadLE (l.getNativePointer w).2.2.mem l.startPointer 2 = held.length ∧
    wordsAt (l.getNativePointer w).2.2.mem (cell l.startPointer 2) held.length = held := by
  rw [getNativePointer_mem h hlen]
  exact count_stored h.words hlen

theorem getNativePointer_confined {allowed : AccessKind → Addr → Prop} {n : Nat}
    (l : PacketListCreate) (w : World) (hallowed : ∀ b, b ∈ l.region n → allowed .store b) :
    World.Confined allowed w (l.getNativePointer w).2.2 := by
  apply UnsafeAccess.putShort_confined
  intro b hb
  rw [UnsafeAccess.setCurrentPointer_address] at hb
  exact hallowed b (count_subset l n b hb)

end step

end PacketListCreate

/-! ## Section 3: One packet -/

namespace BurstQueue

/-- The buffer of a sender or freeer with the default burst size: 130 bytes. -/
def region (q : BurstQueue) : Region 64 := q.list.region 16

/-- At the default burst size, the queue holds the mbufs `held`. -/
structure Buffers (q : BurstQueue) (m : Memory 64) (held : List Mbuf) : Prop where
  burst : q.burst = 16
  room : held.length < 16
  list : q.list.Buffers m held

theorem new_buffers (startPointer : JLong) (m : Memory 64) :
    (new 16 startPointer).Buffers m [] :=
  ⟨rfl, by decide, PacketListCreate.new_buffers _ _ _⟩

theorem Buffers.congr {q : BurstQueue} {m m' : Memory 64} {held : List Mbuf}
    (h : q.Buffers m held) (hm : ∀ b, b ∈ q.region → m' b = m b) : q.Buffers m' held :=
  ⟨h.burst, h.room, h.list.congr (Nat.le_of_lt h.room) (by decide) hm⟩

section step
variable {q : BurstQueue} {w : World} {held : List Mbuf}

/-- The list is full exactly when its 16th mbuf has arrived. -/
theorem size_eq_burst_iff (h : q.Buffers w.mem held) (p : Packet) :
    (q.list.add p w).1.size = q.burst ↔ held.length + 1 = 16 := by
  have hroom := h.room
  have hcount := (PacketListCreate.add_buffers h.list (by omega) p).count
  rw [PacketListCreate.size, hcount, h.burst, List.length_append, List.length_singleton]
  constructor
  · intro heq
    have htoNat := congrArg BitVec.toNat heq
    rw [BitVec.toNat_ofNat] at htoNat
    exact (Nat.mod_eq_of_lt (by omega)).symm.trans htoNat
  · intro heq
    rw [heq]
    rfl

/-- What one step leaves alone: the place of the buffer, and every byte
    outside it. -/
structure Within (q q' : BurstQueue) (w w' : World) : Prop where
  region : q'.region = q.region
  mem : ∀ b, b ∉ q.region → w'.mem b = w.mem b

/-- A flush of a full list. -/
theorem flushBurst_spec {native : Addr → World → World} {emit : List Mbuf → Nic → Nic}
    {allowed : AccessKind → Addr → Prop} (hdrains : Drains native emit) (hburst : q.burst = 16)
    (h : q.list.Buffers w.mem held) (hlen : held.length ≤ 16)
    (hallowed : ∀ kind b, b ∈ q.region → allowed kind b) :
    (q.flushBurst native w).1.Buffers (q.flushBurst native w).2.mem [] ∧
    (q.flushBurst native w).2.nic = emit held w.nic ∧
    Within q (q.flushBurst native w).1 w (q.flushBurst native w).2 ∧
    (w.Safe allowed → (q.flushBurst native w).2.Safe allowed) := by
  obtain ⟨hload, hwords⟩ := PacketListCreate.getNativePointer_decodes h (by omega)
  have hstored := PacketListCreate.getNativePointer_mem h (by omega)
  have hconf := PacketListCreate.getNativePointer_confined q.list w
    (fun b hb => hallowed .store b hb)
  have hdrained := hdrains allowed q.list.startPointer (q.list.getNativePointer w).2.2 held.length
    hload ?_
  · rw [hwords] at hdrained
    refine ⟨⟨hburst, by decide, rfl, ?_, rfl⟩, ?_, ⟨rfl, ?_⟩, ?_⟩
    · exact UnsafeAccess.setCurrentPointer_at q.list.ua (cell q.list.startPointer 2)
    · exact hdrained.nic.trans (congrArg (emit held) hconf.nic)
    · intro b hb
      have hin : b ∉ (⟨q.list.startPointer, 2⟩ : Region 64) :=
        fun hmem => hb (PacketListCreate.count_subset q.list 16 b hmem)
      exact (congrFun hdrained.mem b).trans
        ((congrFun hstored b).trans (storeLE_of_not_mem _ _ _ _ hin))
    · intro hs
      exact hdrained.safe (hconf.safe hs)
  · -- the native side reads the count and the mbufs held
    intro b hb
    have hsub : 2 + 8 * held.length ≤ 2 + 8 * 16 := by omega
    exact hallowed .load b (Region.prefix_subset q.list.startPointer hsub b hb)

/-- **Step lemma**: adding a packet is a push that flushes the 16th mbuf. -/
theorem add_spec {native : Addr → World → World} {emit : List Mbuf → Nic → Nic}
    {allowed : AccessKind → Addr → Prop} (hdrains : Drains native emit)
    (h : q.Buffers w.mem held) (hallowed : ∀ kind b, b ∈ q.region → allowed kind b) (p : Packet) :
    (q.add native p w).1.Buffers (q.add native p w).2.mem
      (if held.length + 1 = 16 then [] else held ++ [p.mbuf_pointer]) ∧
    (q.add native p w).2.nic =
      (if held.length + 1 = 16 then emit (held ++ [p.mbuf_pointer]) w.nic else w.nic) ∧
    Within q (q.add native p w).1 w (q.add native p w).2 ∧
    (w.Safe allowed → (q.add native p w).2.Safe allowed) := by
  have hroom := h.room
  have hfull := size_eq_burst_iff h p
  have hbuf := PacketListCreate.add_buffers h.list (by omega) p
  have hconf := PacketListCreate.add_confined h.list hroom (by decide)
    (fun b hb => hallowed .store b hb) p
  have hmem : ∀ b, b ∉ q.region → (q.list.add p w).2.mem b = w.mem b := by
    intro b hb
    rw [PacketListCreate.add_mem h.list (by omega)]
    exact storeLE_of_not_mem _ _ _ _
      fun hin => hb (PacketListCreate.slot_subset q.list hroom (by decide) b hin)
  have hcount : (held ++ [p.mbuf_pointer]).length = held.length + 1 := by simp
  unfold add
  -- the test is an equality, but the list grows by one and starts empty
  by_cases h16 : held.length + 1 = 16
  · obtain ⟨hempty, hnic, hwithin, hsafe⟩ := flushBurst_spec
      (q := { q with list := (q.list.add p w).1 }) hdrains h.burst hbuf (by omega) hallowed
    simp only [if_pos (hfull.mpr h16), if_pos h16]
    refine ⟨hempty, ?_, ⟨hwithin.region, ?_⟩, ?_⟩
    · exact hnic.trans (congrArg _ hconf.nic)
    · intro b hb
      exact (hwithin.mem b hb).trans (hmem b hb)
    · intro hs
      exact hsafe (hconf.safe hs)
  · have hnot : ¬ (q.list.add p w).1.size = q.burst := fun heq => h16 (hfull.mp heq)
    simp only [if_neg hnot, if_neg h16]
    exact ⟨⟨h.burst, by omega, hbuf⟩, hconf.nic, ⟨rfl, hmem⟩, hconf.safe⟩

end step

end BurstQueue

end PacketPro.DpdkJavaR
