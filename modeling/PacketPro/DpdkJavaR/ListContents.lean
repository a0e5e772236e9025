import PacketPro.DpdkJavaR.PacketListCreate
import PacketPro.Framework.Transitions

/-! # What a `PacketListCreate` Represents

    The list has four operations: `add`, `size`, `reset` and
    `getNativePointer`. After any of them, in any order, the native side should
    find the mbufs added since the last `reset`.

    The count is a field and the place of the next mbuf a cursor, and
    `getNativePointer` moves the cursor to the front without moving it back. It
    is where it should be only if the list was empty. An `add` after it writes
    over the first mbuf, unless `reset` comes in between.
-/

open ByteMem Transitions

namespace PacketPro.DpdkJavaR

/-! ## Section 1: Calls -/

inductive ListCall where
  | add (p : Packet)
  | size
  | reset
  | getNativePointer
  deriving DecidableEq, Repr

/-- A list in use, with the calls made on it so far, the latest first. -/
structure ListRun where
  list : PacketListCreate
  world : World
  calls : List ListCall

namespace ListRun

/-- The effect of a call. What `size` and `getNativePointer` return is a
    function of the state before the call. -/
def exec (s : ListRun) (c : ListCall) : ListRun :=
  match c with
  | .add p =>
    let (list, world) := s.list.add p s.world
    ⟨list, world, c :: s.calls⟩
  | .size => { s with calls := c :: s.calls }
  | .reset => { s with list := s.list.reset, calls := c :: s.calls }
  | .getNativePointer =>
    let (_, list, world) := s.list.getNativePointer s.world
    ⟨list, world, c :: s.calls⟩

end ListRun

/-- The mbufs added since the last `reset`, in order. -/
def added : List ListCall → List Mbuf
  | [] => []
  | .add p :: calls => added calls ++ [p.mbuf_pointer]
  | .reset :: _ => []
  | .size :: calls | .getNativePointer :: calls => added calls

/-- Since the last `reset`, `getNativePointer` was called on a list that was
    not empty. -/
def handedOut : List ListCall → Bool
  | [] | .reset :: _ => false
  | .getNativePointer :: calls => !(added calls).isEmpty || handedOut calls
  | .add _ :: calls | .size :: calls => handedOut calls

/-- The loop of `nat_free_packets`, as a decoder. -/
def decodeLoop (point : Addr) : Nat → Nat → World → List Mbuf
  | 0, _, _ => []
  | n + 1, offset, w =>
    let (freeing, w) := get64 point offset w
    freeing :: decodeLoop point n (offset + 8) w

/-- What `nat_free_packets` finds at a pointer. -/
def decodeList (mem_pointer : Addr) (w : World) : List Mbuf :=
  let (packet_count, w) := get16 mem_pointer 0 w
  decodeLoop mem_pointer packet_count.toNat 2 w

/-- Lists of up to 65535 mbufs, at any address and in any memory. -/
def listSystem : System ListRun ListCall where
  init s := ∃ (max_size : JInt) (startPointer : JLong) (w : World),
    max_size.toNat ≤ 65535 ∧ s = ⟨PacketListCreate.new max_size startPointer, w, []⟩
  step s c s' := s' = s.exec c

/-- No more than `max_size` mbufs are added between two resets. -/
def HasRoom (s : ListRun) (c : ListCall) : Prop :=
  ∀ p, c = .add p → (added s.calls).length < s.list.max_size.toNat

/-- Nothing is added between handing out a list and resetting it. -/
def AddsBeforeHandOut (s : ListRun) (c : ListCall) : Prop :=
  ∀ p, c = .add p → handedOut s.calls = false

/-- `size()` is the number of mbufs added since the last `reset`, and a call of
    `getNativePointer` would return a pointer at which these are found. -/
structure Represents (s : ListRun) : Prop where
  size : s.list.size.toInt = (added s.calls).length
  decodes : let (pointer, _, world) := s.list.getNativePointer s.world
    decodeList pointer world = added s.calls

/-! ## Section 2: Decoding -/

theorem decodeLoop_eq (point : Addr) (n offset : Nat) (w : World) :
    decodeLoop point n offset w = wordsAt w.mem (cell point offset) n := by
  induction n generalizing offset w with
  | zero => rfl
  | succ n ih =>
    rw [wordsAt_succ_eq_cons, ← cell_add, ← get64_fst]
    exact congrArg _ (ih (offset + 8) (get64 point offset w).2)

theorem decodeList_eq (mem_pointer : Addr) (w : World) :
    decodeList mem_pointer w =
      wordsAt w.mem (cell mem_pointer 2) (loadLE w.mem mem_pointer 2) := by
  rw [← get16_buffer_toNat]
  exact decodeLoop_eq mem_pointer _ 2 (get16 mem_pointer 0 w).2

/-- The decoder is the one of the native side: these are the mbufs it frees. -/
theorem nat_free_packets_decodes (mem_pointer : Addr) (w : World) :
    (nat_free_packets mem_pointer w).nic.freed = w.nic.freed ++ decodeList mem_pointer w := by
  have h := nat_free_packets_drains (fun _ _ => True) mem_pointer w _ rfl (fun _ _ => trivial)
  rw [h.nic, decodeList_eq]
  rfl

/-! ## Section 3: The representation invariant -/

/-- The cursor stands behind `n` mbufs. It got there from the first slot, or
    from the count in front of it. -/
def Behind (ua : UnsafeAccess) (start : Addr) (n : Nat) : Prop :=
  ua.At (cell start 2) (8 * n) ∨ ua.At start (2 + 8 * n)

theorem Behind.address {ua : UnsafeAccess} {start : Addr} {n : Nat} (h : Behind ua start n)
    (hn : n < 2 ^ 16) : ua.address = cell (cell start 2) (8 * n) := by
  rcases h with h | h
  · exact h.address (by omega)
  · rw [h.address (by omega), cell_add]
    rfl

theorem Behind.advance {ua : UnsafeAccess} {start : Addr} {n : Nat} (h : Behind ua start n) :
    Behind (ua.advance 8) start (n + 1) := by
  rcases h with h | h
  · exact .inl (h.advance 8)
  · exact .inr (h.advance 8)

/-- What holds after every call. The cursor is only promised until the list is
    handed out. -/
structure ListRun.Inv (s : ListRun) : Prop where
  max : s.list.max_size.toNat ≤ 65535
  room : (added s.calls).length ≤ s.list.max_size.toNat
  count : s.list.current_size = BitVec.ofNat 32 (added s.calls).length
  words : wordsAt s.world.mem (cell s.list.startPointer 2) (added s.calls).length = added s.calls
  cursor : handedOut s.calls = false →
    Behind s.list.ua s.list.startPointer (added s.calls).length

namespace ListRun.Inv

variable {s : ListRun}

theorem length_lt (h : s.Inv) : (added s.calls).length < 2 ^ 16 := by
  have hroom := h.room
  have hmax := h.max
  omega

theorem init {s : ListRun} (h : listSystem.init s) : s.Inv := by
  obtain ⟨max_size, startPointer, w, hmax, rfl⟩ := h
  refine ⟨hmax, Nat.zero_le _, rfl, rfl, ?_⟩
  intro _
  exact .inl (UnsafeAccess.setCurrentPointer_at UnsafeAccess.new (cell startPointer 2))

theorem add (h : s.Inv) (p : Packet) (hroom : HasRoom s (.add p))
    (horder : AddsBeforeHandOut s (.add p)) : (s.exec (.add p)).Inv := by
  have hlt := h.length_lt
  have hcursor := h.cursor (horder p rfl)
  have hcount : (added (.add p :: s.calls)).length = (added s.calls).length + 1 := by
    rw [added, List.length_append, List.length_singleton]
  have hmem : (s.list.add p s.world).2.mem = storeLE s.world.mem
      (cell (cell s.list.startPointer 2) (8 * (added s.calls).length)) 8 p.mbuf_pointer.toNat := by
    unfold PacketListCreate.add UnsafeAccess.putLong
    simp only [hcursor.address hlt, World.store_mem]
  refine ⟨h.max, ?_, ?_, ?_, ?_⟩
  · rw [exec, hcount]
    exact hroom p rfl
  · show s.list.current_size + 1 = BitVec.ofNat 32 (added (.add p :: s.calls)).length
    rw [hcount, h.count, BitVec.ofNat_add]
    rfl
  · -- the mbuf goes right behind the others
    show wordsAt (s.list.add p s.world).2.mem _ (added (.add p :: s.calls)).length = _
    rw [hmem, hcount]
    exact (wordsAt_storeLE_end s.world.mem _ _ _ (by omega)).trans
      (congrArg (· ++ [p.mbuf_pointer]) h.words)
  · intro _
    show Behind (s.list.ua.advance 8) _ (added (.add p :: s.calls)).length
    rw [hcount]
    exact hcursor.advance

theorem reset (h : s.Inv) : (s.exec .reset).Inv := by
  refine ⟨h.max, Nat.zero_le _, rfl, rfl, ?_⟩
  intro _
  exact .inl (UnsafeAccess.setCurrentPointer_at s.list.ua (cell s.list.startPointer 2))

/-- The count is written in front of the mbufs, and the cursor stays behind it:
    that is its place only if there are no mbufs. -/
theorem getNativePointer (h : s.Inv) : (s.exec .getNativePointer).Inv := by
  have hlt := h.length_lt
  refine ⟨h.max, h.room, h.count, ?_, ?_⟩
  · show wordsAt (s.list.getNativePointer s.world).2.2.mem _ _ = _
    rw [PacketListCreate.getNativePointer_mem_of_count h.count hlt]
    exact (count_stored h.words hlt).2
  · intro hout
    have hempty : added s.calls = [] := by
      change (!(added s.calls).isEmpty || handedOut s.calls) = false at hout
      simp only [Bool.or_eq_false_iff, Bool.not_eq_false', List.isEmpty_iff] at hout
      exact hout.1
    show Behind (s.list.getNativePointer s.world).2.1.ua s.list.startPointer
      (added s.calls).length
    rw [hempty]
    exact .inr ((UnsafeAccess.setCurrentPointer_at s.list.ua s.list.startPointer).advance 2)

/-- **Step lemma**. -/
theorem exec (h : s.Inv) (c : ListCall) (hroom : HasRoom s c) (horder : AddsBeforeHandOut s c) :
    (s.exec c).Inv := by
  cases c with
  | add p => exact h.add p hroom horder
  | size => exact ⟨h.max, h.room, h.count, h.words, h.cursor⟩
  | reset => exact h.reset
  | getNativePointer => exact h.getNativePointer

theorem represents (h : s.Inv) : Represents s := by
  have hlt := h.length_lt
  have hmem := PacketListCreate.getNativePointer_mem_of_count (w := s.world) h.count hlt
  obtain ⟨hload, hwords⟩ := count_stored h.words hlt
  constructor
  · rw [PacketListCreate.size, h.count]
    exact UnsafeAccess.toInt_ofNat (by omega)
  · show decodeList s.list.startPointer (s.list.getNativePointer s.world).2.2 = _
    rw [decodeList_eq, hmem, hload, hwords]

end ListRun.Inv

/-- **Run lemma**: after any calls that add nothing to a list between handing
    it out and resetting it, the list represents the mbufs added since the last
    `reset`. -/
theorem list_represents_added {s : ListRun}
    (h : ReachableWhile listSystem (fun s c => HasRoom s c ∧ AddsBeforeHandOut s c) s) :
    Represents s := by
  apply ListRun.Inv.represents
  refine h.invariant ListRun.Inv (fun _ hinit => ListRun.Inv.init hinit) ?_
  intro s c s' hinv hadmits hstep
  rw [hstep]
  exact hinv.exec c hadmits.1 hadmits.2

/-- A new list for two mbufs. -/
def ListRun.forTwo : ListRun := ⟨PacketListCreate.new 2 0x1000, World.quiet fun _ => 0, []⟩

theorem ListRun.forTwo_init : listSystem.init ListRun.forTwo := ⟨2, 0x1000, _, by decide, rfl⟩

/-- A list that is handed out, reset and filled again. -/
theorem list_represents_added_refilled :
    let s := ((ListRun.forTwo.exec (.add ⟨1, 0⟩)).exec .getNativePointer).exec .reset
    Represents (s.exec (.add ⟨2, 0⟩)) := by
  apply list_represents_added
  refine ((((ReachableWhile.init ListRun.forTwo_init).step ?_ rfl).step ?_ rfl).step ?_ rfl).step
    ?_ rfl
  · exact ⟨fun _ _ => by decide, fun _ _ => by decide⟩
  · exact ⟨fun _ h => (nomatch h), fun _ h => (nomatch h)⟩
  · exact ⟨fun _ h => (nomatch h), fun _ h => (nomatch h)⟩
  · exact ⟨fun _ _ => by decide, fun _ _ => by decide⟩

/-- An mbuf added to a list that was handed out takes the place of the first
    one, and the count includes a slot that was never written. -/
theorem list_misrepresents_after_handOut :
    ∃ s, ReachableWhile listSystem HasRoom s ∧ ¬ Represents s := by
  refine ⟨((ListRun.forTwo.exec (.add ⟨1, 0⟩)).exec .getNativePointer).exec (.add ⟨2, 0⟩), ?_, ?_⟩
  · refine (((ReachableWhile.init ListRun.forTwo_init).step ?_ rfl).step ?_ rfl).step ?_ rfl
    · exact fun _ _ => by decide
    · exact fun _ h => (nomatch h)
    · exact fun _ _ => by decide
  · -- the native side finds `[2, 0]`, added were `[1, 2]`
    intro h
    have hdecodes := h.decodes
    revert hdecodes
    decide +kernel

end PacketPro.DpdkJavaR
