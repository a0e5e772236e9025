import PacketPro.Jvm.UnsafeAccess
import PacketPro.Framework.Layout

/-! # One Memory Layout for C and Java

    Both sides of the framework write unsigned numbers of 8, 16, 32 and 64
    bits into native memory, one behind the other. The C side uses the
    `insert` and `get` functions at a running offset, the Java side the `put`
    and `get` methods of an `UnsafeAccess` through its cursor.

    Each of the four is a sequence of little-endian accesses, so what either
    side wrote, either side reads back. A reader returns the numbers as its
    caller sees them: the unsigned value in C, and in Java the value of the
    `int` or `long`, except that a 64-bit number is taken as its bits.
-/

open ByteMem

namespace PacketPro

/-! ## Section 1: Writers and readers -/

inductive ValueType where
  | u8
  | u16
  | u32
  | u64
  deriving DecidableEq, Repr

/-- The size in bytes. -/
def ValueType.size : ValueType → Nat
  | .u8 => 1
  | .u16 => 2
  | .u32 => 4
  | .u64 => 8

inductive TypedValue where
  | u8 (v : BitVec 8)
  | u16 (v : BitVec 16)
  | u32 (v : BitVec 32)
  | u64 (v : BitVec 64)
  deriving DecidableEq, Repr

namespace TypedValue

def type : TypedValue → ValueType
  | .u8 _ => .u8
  | .u16 _ => .u16
  | .u32 _ => .u32
  | .u64 _ => .u64

def number : TypedValue → Nat
  | .u8 v => v.toNat
  | .u16 v => v.toNat
  | .u32 v => v.toNat
  | .u64 v => v.toNat

/-- `insert8` to `insert64`. -/
def insert (x : TypedValue) (point : Addr) (position : Nat) (w : World) : World :=
  match x with
  | .u8 v => insert8 point position v w
  | .u16 v => insert16 point position v w
  | .u32 v => insert32 point position v w
  | .u64 v => insert64 point position v w

/-- `putByte` to `putLong`. The argument is the next larger type, except for
    a `long`. -/
def put (x : TypedValue) (ua : UnsafeAccess) (w : World) : UnsafeAccess × World :=
  match x with
  | .u8 v => ua.putByte (v.setWidth 32) w
  | .u16 v => ua.putShort (v.setWidth 32) w
  | .u32 v => ua.putInt (v.setWidth 64) w
  | .u64 v => ua.putLong v w

end TypedValue

namespace ValueType

/-- `get8` to `get64`. -/
def getC (t : ValueType) (point : Addr) (position : Nat) (w : World) : Int × World :=
  match t with
  | .u8 => (get8 point position w).map (fun v => v.toNat) id
  | .u16 => (get16 point position w).map (fun v => v.toNat) id
  | .u32 => (get32 point position w).map (fun v => v.toNat) id
  | .u64 => (get64 point position w).map (fun v => v.toNat) id

/-- `getByte` to `getLong`. -/
def getJava (t : ValueType) (ua : UnsafeAccess) (w : World) : Int × UnsafeAccess × World :=
  match t with
  | .u8 => (ua.getByte w).map (fun v => v.toInt) id
  | .u16 => (ua.getShort w).map (fun v => v.toInt) id
  | .u32 => (ua.getInt w).map (fun v => v.toInt) id
  | .u64 => (ua.getLong w).map (fun v => (v.toNat : Int)) id

end ValueType

/-- The C writer, at a running offset. -/
def insertAll (point : Addr) : List TypedValue → Nat → World → World
  | [], _, w => w
  | x :: xs, offset, w => insertAll point xs (offset + x.type.size) (x.insert point offset w)

/-- The C reader. -/
def getAllC (point : Addr) : List ValueType → Nat → World → List Int × World
  | [], _, w => ([], w)
  | t :: ts, offset, w =>
    let (v, w) := t.getC point offset w
    let (vs, w) := getAllC point ts (offset + t.size) w
    (v :: vs, w)

/-- The Java writer. -/
def putAll : List TypedValue → UnsafeAccess → World → UnsafeAccess × World
  | [], ua, w => (ua, w)
  | x :: xs, ua, w =>
    let (ua, w) := x.put ua w
    putAll xs ua w

/-- The Java reader. -/
def getAllJava : List ValueType → UnsafeAccess → World → List Int × UnsafeAccess × World
  | [], ua, w => ([], ua, w)
  | t :: ts, ua, w =>
    let (v, ua, w) := t.getJava ua w
    let (vs, ua, w) := getAllJava ts ua w
    (v :: vs, ua, w)

/-- The bytes that the values take. -/
def totalSize (xs : List TypedValue) : Nat := (xs.map fun x => x.type.size).sum

/-! ## Section 2: One value -/

theorem TypedValue.number_lt (x : TypedValue) : x.number < 256 ^ x.type.size := by
  cases x with
  | u8 v | u16 v | u32 v | u64 v => exact v.isLt

theorem TypedValue.insert_mem (x : TypedValue) (point : Addr) (position : Nat) (w : World) :
    (x.insert point position w).mem =
      storeLE w.mem (cell point position) x.type.size x.number := by
  cases x with
  | u8 v => exact insert8_mem point position v w
  | u16 v => exact insert16_mem point position v w
  | u32 v => exact insert32_mem point position v w
  | u64 v => exact insert64_mem point position v w

theorem TypedValue.put_fst (x : TypedValue) (ua : UnsafeAccess) (w : World) :
    (x.put ua w).1 = ua.advance x.type.size := by
  cases x <;> rfl

/-- Narrowing a number that was widened gives it back. -/
theorem setWidth_setWidth_toNat {n m : Nat} (v : BitVec n) (hnm : n ≤ m) :
    ((v.setWidth m).setWidth n).toNat = v.toNat := by
  rw [BitVec.setWidth_setWidth_of_le v hnm, BitVec.setWidth_eq]

theorem TypedValue.put_mem (x : TypedValue) (ua : UnsafeAccess) (w : World) :
    (x.put ua w).2.mem = storeLE w.mem ua.address x.type.size x.number := by
  cases x with
  | u8 v =>
    simp only [put, UnsafeAccess.putByte, World.store_mem, UnsafeAccess.checkBounds_mem,
      setWidth_setWidth_toNat v (show 8 ≤ 32 by decide)]
    rfl
  | u16 v =>
    simp only [put, UnsafeAccess.putShort, World.store_mem, UnsafeAccess.checkBounds_mem,
      setWidth_setWidth_toNat v (show 16 ≤ 32 by decide)]
    rfl
  | u32 v =>
    simp only [put, UnsafeAccess.putInt, World.store_mem, UnsafeAccess.checkBounds_mem,
      setWidth_setWidth_toNat v (show 32 ≤ 64 by decide)]
    rfl
  | u64 v => rfl

theorem ValueType.getC_fst (t : ValueType) (point : Addr) (position : Nat) (w : World) :
    (t.getC point position w).1 = (loadLE w.mem (cell point position) t.size : Nat) := by
  have hlt := loadLE_lt w.mem (cell point position) t.size
  cases t with
  | u8 =>
    show (((w.mem (cell point position)).toNat : Nat) : Int) = _
    rw [size, loadLE, loadLE_zero]
    omega
  | u16 =>
    show (((get16 point position w).1.toNat : Nat) : Int) = _
    rw [get16_fst, BitVec.toNat_ofNat]
    exact congrArg Int.ofNat (Nat.mod_eq_of_lt hlt)
  | u32 =>
    show (((get32 point position w).1.toNat : Nat) : Int) = _
    rw [get32_fst, BitVec.toNat_ofNat]
    exact congrArg Int.ofNat (Nat.mod_eq_of_lt hlt)
  | u64 =>
    show (((get64 point position w).1.toNat : Nat) : Int) = _
    rw [get64_fst, word64, BitVec.toNat_ofNat]
    exact congrArg Int.ofNat (Nat.mod_eq_of_lt hlt)

theorem ValueType.getC_mem (t : ValueType) (point : Addr) (position : Nat) (w : World) :
    (t.getC point position w).2.mem = w.mem := by
  cases t <;> rfl

/-- A wider type holds the unsigned value of a narrower one without a sign. -/
theorem toInt_setWidth_ofNat {n m x : Nat} (hnm : n < m) (hx : x < 2 ^ n) :
    ((BitVec.ofNat n x).setWidth m).toInt = x := by
  have hpow : 2 * 2 ^ n ≤ 2 ^ m := by
    rw [← Nat.pow_succ']
    exact Nat.pow_le_pow_right (by decide) hnm
  have htoNat : ((BitVec.ofNat n x).setWidth m).toNat = x := by
    rw [BitVec.toNat_setWidth, BitVec.toNat_ofNat, Nat.mod_eq_of_lt hx, Nat.mod_eq_of_lt (by omega)]
  rw [BitVec.toInt_eq_toNat_of_lt (by omega), htoNat]

theorem ValueType.getJava_fst (t : ValueType) (ua : UnsafeAccess) (w : World) :
    (t.getJava ua w).1 = (loadLE w.mem ua.address t.size : Nat) := by
  have hlt := loadLE_lt w.mem ua.address t.size
  cases t with
  | u8 =>
    show (signToUnsignByte (BitVec.ofNat 8 (loadLE w.mem ua.address 1))).toInt = _
    rw [signToUnsignByte_eq]
    exact toInt_setWidth_ofNat (by decide) hlt
  | u16 =>
    show (signToUnsignShort (BitVec.ofNat 16 (loadLE w.mem ua.address 2))).toInt = _
    rw [signToUnsignShort_eq]
    exact toInt_setWidth_ofNat (by decide) hlt
  | u32 =>
    show (signToUnsignInt (BitVec.ofNat 32 (loadLE w.mem ua.address 4))).toInt = _
    rw [signToUnsignInt_eq]
    exact toInt_setWidth_ofNat (by decide) hlt
  | u64 =>
    show (((word64 w.mem ua.address).toNat : Nat) : Int) = _
    rw [word64, BitVec.toNat_ofNat]
    exact congrArg Int.ofNat (Nat.mod_eq_of_lt hlt)

theorem ValueType.getJava_snd (t : ValueType) (ua : UnsafeAccess) (w : World) :
    (t.getJava ua w).2.1 = ua.advance t.size ∧ (t.getJava ua w).2.2.mem = w.mem := by
  cases t <;> exact ⟨rfl, rfl⟩

/-! ## Section 3: Sequences of values -/

/-- The sizes and the numbers of the values. -/
def sizedNumbers (xs : List TypedValue) : List (Nat × Nat) :=
  xs.map fun x => (x.type.size, x.number)

theorem sizedNumbers_sizes (xs : List TypedValue) :
    (sizedNumbers xs).map Prod.fst = (xs.map TypedValue.type).map ValueType.size := by
  rw [sizedNumbers, List.map_map, List.map_map]
  rfl

theorem sizedNumbers_sum (xs : List TypedValue) :
    ((sizedNumbers xs).map Prod.fst).sum = totalSize xs := by
  rw [sizedNumbers_sizes, totalSize, List.map_map]
  rfl

theorem insertAll_mem (point : Addr) (xs : List TypedValue) (offset : Nat) (w : World) :
    (insertAll point xs offset w).mem =
      storeAll w.mem (cell point offset) (sizedNumbers xs) := by
  induction xs generalizing offset w with
  | nil => rfl
  | cons x xs ih =>
    rw [insertAll, ih, x.insert_mem, cell_add]
    rfl

theorem getAllC_fst (point : Addr) (ts : List ValueType) (offset : Nat) (w : World) :
    (getAllC point ts offset w).1 =
      (loadAll w.mem (cell point offset) (ts.map ValueType.size)).map Int.ofNat := by
  induction ts generalizing offset w with
  | nil => rfl
  | cons t ts ih =>
    show (t.getC point offset w).1 :: (getAllC point ts _ (t.getC point offset w).2).1 = _
    rw [ih, t.getC_fst, t.getC_mem, cell_add]
    rfl

/-- The Java writer, from a cursor that does not wrap. -/
theorem putAll_spec (xs : List TypedValue) {ua : UnsafeAccess} {base : Addr} {k : Nat}
    (hua : ua.At base k) (hsize : k + totalSize xs < 2 ^ 31) (w : World) :
    (putAll xs ua w).1.At base (k + totalSize xs) ∧
    (putAll xs ua w).2.mem = storeAll w.mem (cell base k) (sizedNumbers xs) := by
  induction xs generalizing ua k w with
  | nil => exact ⟨hua, rfl⟩
  | cons x xs ih =>
    have htotal : totalSize (x :: xs) = x.type.size + totalSize xs := by
      rw [totalSize, List.map_cons, List.sum_cons]
      rfl
    rw [htotal, ← Nat.add_assoc] at hsize ⊢
    have hnext : (x.put ua w).1.At base (k + x.type.size) := by
      rw [x.put_fst]
      exact hua.advance _
    obtain ⟨hcursor, hmem⟩ := ih hnext hsize (x.put ua w).2
    refine ⟨hcursor, hmem.trans ?_⟩
    rw [x.put_mem, hua.address (by omega), cell_add]
    rfl

/-- The Java reader, from a cursor that does not wrap. -/
theorem getAllJava_spec (ts : List ValueType) {ua : UnsafeAccess} {base : Addr} {k : Nat}
    (hua : ua.At base k) (hsize : k + (ts.map ValueType.size).sum < 2 ^ 31) (w : World) :
    (getAllJava ts ua w).2.1.At base (k + (ts.map ValueType.size).sum) ∧
    (getAllJava ts ua w).1 =
      (loadAll w.mem (cell base k) (ts.map ValueType.size)).map Int.ofNat := by
  induction ts generalizing ua k w with
  | nil => exact ⟨hua, rfl⟩
  | cons t ts ih =>
    rw [List.map_cons, List.sum_cons, ← Nat.add_assoc] at hsize ⊢
    obtain ⟨hadvance, hkept⟩ := t.getJava_snd ua w
    have hnext : (t.getJava ua w).2.1.At base (k + t.size) := by
      rw [hadvance]
      exact hua.advance _
    obtain ⟨hcursor, hvalues⟩ := ih hnext hsize (t.getJava ua w).2.2
    refine ⟨hcursor, ?_⟩
    show (t.getJava ua w).1 :: (getAllJava ts (t.getJava ua w).2.1 (t.getJava ua w).2.2).1 = _
    rw [hvalues, t.getJava_fst, hua.address (by omega), hkept, cell_add]
    rfl

/-- Both readers find the values at `base`, the Java one moving its cursor
    behind them, and nothing but their bytes differs from `w`. -/
structure Carries (base : Addr) (xs : List TypedValue) (w w' : World) : Prop where
  readC : (getAllC base (xs.map TypedValue.type) 0 w').1 = xs.map fun x => (x.number : Int)
  readJava : ∀ ua : UnsafeAccess,
    let (values, cursor, _) := getAllJava (xs.map TypedValue.type) (ua.setCurrentPointer base) w'
    values = (xs.map fun x => (x.number : Int)) ∧ cursor.At base (totalSize xs)
  frame : ∀ b, b ∉ (⟨base, totalSize xs⟩ : Region 64) → w'.mem b = w.mem b

theorem carries_of_storeAll {base : Addr} {xs : List TypedValue} {w w' : World}
    (hsize : totalSize xs < 2 ^ 31) (hmem : w'.mem = storeAll w.mem base (sizedNumbers xs)) :
    Carries base xs w w' := by
  have hsum := sizedNumbers_sum xs
  have hfit : ((sizedNumbers xs).map Prod.fst).sum ≤ 2 ^ 64 := by omega
  have hrange : ∀ f ∈ sizedNumbers xs, f.2 < 256 ^ f.1 := by
    intro f hf
    obtain ⟨x, -, rfl⟩ := List.mem_map.mp hf
    exact x.number_lt
  have hload : (loadAll w'.mem base ((xs.map TypedValue.type).map ValueType.size)).map Int.ofNat =
      xs.map fun x => (x.number : Int) := by
    rw [hmem, ← sizedNumbers_sizes, loadAll_storeAll _ _ _ hfit hrange, sizedNumbers, List.map_map,
      List.map_map]
    rfl
  constructor
  · rw [getAllC_fst, cell_zero, hload]
  · intro ua
    rw [sizedNumbers_sizes] at hsum
    obtain ⟨hcursor, hvalues⟩ := getAllJava_spec (xs.map TypedValue.type)
      (UnsafeAccess.setCurrentPointer_at ua base) (by omega) w'
    rw [cell_zero, hload] at hvalues
    rw [Nat.zero_add, hsum] at hcursor
    exact ⟨hvalues, hcursor⟩
  · intro b hb
    rw [hmem]
    exact storeAll_of_not_mem _ _ _ hfit (by rwa [hsum])

/-- **Main**: what either side writes, both sides read. -/
theorem writers_share_layout (xs : List TypedValue) (hsize : totalSize xs < 2 ^ 31) (base : Addr)
    (ua : UnsafeAccess) (w : World) :
    Carries base xs w (insertAll base xs 0 w) ∧
    Carries base xs w (putAll xs (ua.setCurrentPointer base) w).2 ∧
    (putAll xs (ua.setCurrentPointer base) w).1.At base (totalSize xs) := by
  obtain ⟨hcursor, hjava⟩ := putAll_spec xs (UnsafeAccess.setCurrentPointer_at ua base)
    (by omega) w
  have hc := insertAll_mem base xs 0 w
  rw [cell_zero] at hc hjava
  rw [Nat.zero_add] at hcursor
  exact ⟨carries_of_storeAll hsize hc, carries_of_storeAll hsize hjava, hcursor⟩

/-- A count and two pointers, as in the buffer of a burst. -/
theorem writers_share_layout_burst :
    let xs : List TypedValue := [.u16 1, .u64 0xFFFFFFFFFFFFFFFF, .u64 0x80]
    totalSize xs < 2 ^ 31 ∧
    Carries 0x1000 xs (World.quiet fun _ => 0) (insertAll 0x1000 xs 0 (World.quiet fun _ => 0)) :=
  ⟨by decide, (writers_share_layout _ (by decide) _ UnsafeAccess.new _).1⟩

end PacketPro
