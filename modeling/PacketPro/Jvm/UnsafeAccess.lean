import PacketPro.Native.Utils

/-! # `UnsafeAccess.java`: A Cursor Over Native Memory

    The Java side reads and writes native memory through an object with a
    pointer and a running offset. The offset is a Java `int`, so it wraps at
    `2 ^ 31` and is sign-extended when it is added to the pointer; multi-byte
    accesses use the byte order of the host, which is little-endian.

    Unsigned native values come back as the next larger Java type
    (`signToUnsign`), and a value that does not fit its unsigned type when it
    is written is reported by `checkBounds` and narrowed all the same.
-/

open ByteMem

namespace PacketPro

/-! ## Section 1: Definitions -/

/-- `Utils.signToUnsign(byte)`. -/
def signToUnsignByte (value : JByte) : JInt := value.signExtend 32 &&& 0xFF

/-- `Utils.signToUnsign(short)`. -/
def signToUnsignShort (value : JShort) : JInt := value.signExtend 32 &&& 0xFFFF

/-- `Utils.signToUnsign(int)`. -/
def signToUnsignInt (value : JInt) : JLong := value.signExtend 64 &&& 0xFFFFFFFF

structure UnsafeAccess where
  currentPointer : JLong
  offset : JInt
  deriving DecidableEq, Repr

namespace UnsafeAccess

def new : UnsafeAccess := ⟨0, 0⟩

/-- `currentPointer + offset`, where the access goes. -/
def address (ua : UnsafeAccess) : Addr := ua.currentPointer + ua.offset.signExtend 64

/-- `offset += n`. -/
def advance (ua : UnsafeAccess) (n : Nat) : UnsafeAccess :=
  { ua with offset := ua.offset + BitVec.ofNat 32 n }

def setCurrentPointer (_ua : UnsafeAccess) (currentPointer : JLong) : UnsafeAccess :=
  { currentPointer, offset := 0 }

def longSize : JLong := 8

/-- Largest value of an unsigned type of `byte_size` bytes. `MAX_LONG` is 0 in
    the source, but no caller checks a `long`. -/
def maxValue : Nat → Int
  | 1 => 255
  | 2 => 65535
  | 4 => 4294967295
  | _ => 0

/-- Report a value outside `0 .. maxValue`; the caller goes on regardless. -/
def checkBounds (value : JLong) (byte_size : Nat) (w : World) : World :=
  if byte_size ∈ [1, 2, 4, 8] ∧ (value.toInt < 0 ∨ value.toInt > maxValue byte_size) then
    { w with reports := w.reports + 1 }
  else
    w

def putByte (ua : UnsafeAccess) (value : JInt) (w : World) : UnsafeAccess × World :=
  let w := checkBounds (value.signExtend 64) 1 w
  (ua.advance 1, w.store ua.address 1 (value.setWidth 8).toNat)

def putShort (ua : UnsafeAccess) (value : JInt) (w : World) : UnsafeAccess × World :=
  let w := checkBounds (value.signExtend 64) 2 w
  (ua.advance 2, w.store ua.address 2 (value.setWidth 16).toNat)

def putInt (ua : UnsafeAccess) (value : JLong) (w : World) : UnsafeAccess × World :=
  let w := checkBounds value 4 w
  (ua.advance 4, w.store ua.address 4 (value.setWidth 32).toNat)

/-- The bounds check of `putLong` is commented out in the source. -/
def putLong (ua : UnsafeAccess) (value : JLong) (w : World) : UnsafeAccess × World :=
  (ua.advance 8, w.store ua.address 8 value.toNat)

def getByte (ua : UnsafeAccess) (w : World) : JInt × UnsafeAccess × World :=
  (signToUnsignByte (BitVec.ofNat 8 (loadLE w.mem ua.address 1)),
    ua.advance 1, w.touch ua.address 1)

def getShort (ua : UnsafeAccess) (w : World) : JInt × UnsafeAccess × World :=
  (signToUnsignShort (BitVec.ofNat 16 (loadLE w.mem ua.address 2)),
    ua.advance 2, w.touch ua.address 2)

def getInt (ua : UnsafeAccess) (w : World) : JLong × UnsafeAccess × World :=
  (signToUnsignInt (BitVec.ofNat 32 (loadLE w.mem ua.address 4)),
    ua.advance 4, w.touch ua.address 4)

def getLong (ua : UnsafeAccess) (w : World) : JLong × UnsafeAccess × World :=
  (word64 w.mem ua.address, ua.advance 8, w.touch ua.address 8)

end UnsafeAccess

/-! ## Section 2: Sign to unsigned -/

/-- Sign extension followed by the mask of the narrow type is zero extension. -/
theorem signExtend_and_mask {n m : Nat} (hnm : n ≤ m) (value : BitVec n) (mask : BitVec m)
    (hmask : mask.toNat = 2 ^ n - 1) : value.signExtend m &&& mask = value.setWidth m := by
  have hpow : 2 ^ n ∣ 2 ^ m := Nat.pow_dvd_pow 2 hnm
  have hle : 2 ^ n ≤ 2 ^ m := Nat.le_of_dvd (Nat.two_pow_pos m) hpow
  have hval := value.isLt
  apply BitVec.eq_of_toNat_eq
  rw [BitVec.toNat_and, hmask, Nat.and_two_pow_sub_one_eq_mod, BitVec.toNat_signExtend,
    BitVec.toNat_setWidth]
  have hmod : (value.setWidth m).toNat = value.toNat := by
    rw [BitVec.toNat_setWidth]
    exact Nat.mod_eq_of_lt (by omega)
  rw [BitVec.toNat_setWidth] at hmod
  rw [hmod]
  -- the bits that the sign adds are above the mask
  by_cases hmsb : value.msb
  · rw [if_pos hmsb]
    have hdvd : 2 ^ n ∣ 2 ^ m - 2 ^ n := (Nat.dvd_sub hpow (Nat.dvd_refl _))
    rw [Nat.add_mod, Nat.mod_eq_zero_of_dvd hdvd, Nat.add_zero, Nat.mod_mod,
      Nat.mod_eq_of_lt hval]
  · rw [if_neg hmsb, Nat.add_zero, Nat.mod_eq_of_lt hval]

theorem signToUnsignByte_eq (value : JByte) : signToUnsignByte value = value.setWidth 32 :=
  signExtend_and_mask (by decide) value _ rfl

theorem signToUnsignShort_eq (value : JShort) : signToUnsignShort value = value.setWidth 32 :=
  signExtend_and_mask (by decide) value _ rfl

theorem signToUnsignInt_eq (value : JInt) : signToUnsignInt value = value.setWidth 64 :=
  signExtend_and_mask (by decide) value _ rfl

/-! ## Section 3: Where the cursor stands -/

namespace UnsafeAccess

/-- The cursor stands `k` bytes behind `base`, without having wrapped. -/
structure At (ua : UnsafeAccess) (base : Addr) (k : Nat) : Prop where
  pointer : ua.currentPointer = base
  offset : ua.offset = BitVec.ofNat 32 k

theorem setCurrentPointer_at (ua : UnsafeAccess) (base : JLong) :
    (ua.setCurrentPointer base).At base 0 := ⟨rfl, rfl⟩

theorem At.advance {ua : UnsafeAccess} {base : Addr} {k : Nat} (h : ua.At base k) (n : Nat) :
    (ua.advance n).At base (k + n) := by
  refine ⟨h.pointer, ?_⟩
  show ua.offset + BitVec.ofNat 32 n = _
  rw [h.offset, BitVec.ofNat_add]

/-- A small offset keeps its value when it is sign-extended. -/
theorem signExtend_ofNat {k : Nat} (hk : k < 2 ^ 31) :
    (BitVec.ofNat 32 k).signExtend 64 = BitVec.ofNat 64 k := by
  have hmsb : (BitVec.ofNat 32 k).msb = false := by
    rw [BitVec.msb_eq_decide, BitVec.toNat_ofNat]
    simp only [decide_eq_false_iff_not]
    omega
  rw [BitVec.signExtend_eq_setWidth_of_msb_false hmsb]
  apply BitVec.eq_of_toNat_eq
  rw [BitVec.toNat_setWidth, BitVec.toNat_ofNat, BitVec.toNat_ofNat]
  omega

/-- A small `int` is the number it stands for. -/
theorem toInt_ofNat {k : Nat} (hk : k < 2 ^ 31) : (BitVec.ofNat 32 k).toInt = k := by
  rw [BitVec.toInt_eq_toNat_of_lt (by rw [BitVec.toNat_ofNat]; omega), BitVec.toNat_ofNat]
  omega

theorem At.address {ua : UnsafeAccess} {base : Addr} {k : Nat} (h : ua.At base k)
    (hk : k < 2 ^ 31) : ua.address = cell base k := by
  unfold UnsafeAccess.address cell
  rw [h.pointer, h.offset, signExtend_ofNat hk]

@[simp] theorem setCurrentPointer_address (ua : UnsafeAccess) (base : JLong) :
    (ua.setCurrentPointer base).address = base := by
  rw [(setCurrentPointer_at ua base).address (by decide), cell_zero]

/-! ## Section 4: What the accessors touch -/

section confined
variable {allowed : AccessKind → Addr → Prop}

theorem checkBounds_confined (value : JLong) (n : Nat) (w : World) :
    World.Confined allowed w (checkBounds value n w) := by
  unfold checkBounds
  split
  · exact ⟨rfl, rfl, rfl, id⟩
  · exact World.Confined.refl w

@[simp] theorem checkBounds_mem (value : JLong) (n : Nat) (w : World) :
    (checkBounds value n w).mem = w.mem := by
  unfold checkBounds
  split <;> rfl

theorem putShort_confined (ua : UnsafeAccess) (value : JInt) (w : World)
    (h : ∀ b, b ∈ (⟨ua.address, 2⟩ : Region 64) → allowed .store b) :
    World.Confined allowed w (ua.putShort value w).2 :=
  (checkBounds_confined _ _ w).trans (World.store_confined _ _ h)

theorem putLong_confined (ua : UnsafeAccess) (value : JLong) (w : World)
    (h : ∀ b, b ∈ (⟨ua.address, 8⟩ : Region 64) → allowed .store b) :
    World.Confined allowed w (ua.putLong value w).2 :=
  World.store_confined w _ h

theorem getByte_confined (ua : UnsafeAccess) (w : World)
    (h : ∀ b, b ∈ (⟨ua.address, 1⟩ : Region 64) → allowed .load b) :
    World.Confined allowed w (ua.getByte w).2.2 :=
  World.touch_confined w h

theorem getInt_confined (ua : UnsafeAccess) (w : World)
    (h : ∀ b, b ∈ (⟨ua.address, 4⟩ : Region 64) → allowed .load b) :
    World.Confined allowed w (ua.getInt w).2.2 :=
  World.touch_confined w h

end confined

/-- The count that `getShort` returns, as a number. -/
theorem getShort_toNat (ua : UnsafeAccess) (w : World) :
    (ua.getShort w).1.toNat = loadLE w.mem ua.address 2 := by
  have hlt := loadLE_lt w.mem ua.address 2
  show (signToUnsignShort (BitVec.ofNat 16 (loadLE w.mem ua.address 2))).toNat = _
  rw [signToUnsignShort_eq, BitVec.toNat_setWidth, BitVec.toNat_ofNat]
  omega

theorem getInt_toNat (ua : UnsafeAccess) (w : World) :
    (ua.getInt w).1.toNat = loadLE w.mem ua.address 4 := by
  have hlt := loadLE_lt w.mem ua.address 4
  show (signToUnsignInt (BitVec.ofNat 32 (loadLE w.mem ua.address 4))).toNat = _
  rw [signToUnsignInt_eq, BitVec.toNat_setWidth, BitVec.toNat_ofNat]
  omega

end UnsafeAccess

end PacketPro
