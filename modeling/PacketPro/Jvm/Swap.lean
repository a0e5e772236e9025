import PacketPro.World
import PacketPro.Framework.BitPatterns

/-! # `Utils.java`: Swapping the Byte Order

    `Utils.swap` has five overloads. Those for `short`, `int` and `long` take a
    value apart into its bytes and put them together in reverse order. Those
    for `float` and `double` do this to the bits of their argument.

    * The integer overloads reverse the bytes, so they are involutions, and
      turn a number that was loaded in the order of the host into the number
      that is there in network byte order.
    * The floating-point overloads read their argument with `floatToIntBits`
      and `doubleToLongBits`, which return one pattern for all NaNs. A number
      whose reversed bytes are those of another NaN is lost on the way back.

    A floating-point value is its bits: `intBitsToFloat` and `longBitsToDouble`
    keep every pattern, those of the NaNs included.
-/

open ByteMem BitPatterns

namespace PacketPro

/-! ## Section 1: Definitions -/

/-- `Utils.swap(short)`. The operands are promoted to `int`. -/
def swapShort (value : JShort) : JShort :=
  let b1 : JInt := value.signExtend 32 &&& 0xFF
  let b2 : JInt := (value.signExtend 32).sshiftRight 8 &&& 0xFF
  (b1 <<< 8 ||| b2 <<< 0).setWidth 16

/-- `Utils.swap(int)`. -/
def swapInt (value : JInt) : JInt :=
  let b1 := value.sshiftRight 0 &&& 0xFF
  let b2 := value.sshiftRight 8 &&& 0xFF
  let b3 := value.sshiftRight 16 &&& 0xFF
  let b4 := value.sshiftRight 24 &&& 0xFF
  b1 <<< 24 ||| b2 <<< 16 ||| b3 <<< 8 ||| b4 <<< 0

/-- `Utils.swap(long)`. -/
def swapLong (value : JLong) : JLong :=
  let b1 := value.sshiftRight 0 &&& 0xFF
  let b2 := value.sshiftRight 8 &&& 0xFF
  let b3 := value.sshiftRight 16 &&& 0xFF
  let b4 := value.sshiftRight 24 &&& 0xFF
  let b5 := value.sshiftRight 32 &&& 0xFF
  let b6 := value.sshiftRight 40 &&& 0xFF
  let b7 := value.sshiftRight 48 &&& 0xFF
  let b8 := value.sshiftRight 56 &&& 0xFF
  b1 <<< 56 ||| b2 <<< 48 ||| b3 <<< 40 ||| b4 <<< 32 ||| b5 <<< 24 ||| b6 <<< 16 ||| b7 <<< 8 |||
    b8 <<< 0

/-- A `float`, by its bits. -/
structure JFloat where
  bits : JInt
  deriving DecidableEq, Repr

/-- A `double`, by its bits. -/
structure JDouble where
  bits : JLong
  deriving DecidableEq, Repr

def binary32 : Format := ⟨8, 23⟩
def binary64 : Format := ⟨11, 52⟩

def JFloat.IsNaN (value : JFloat) : Prop := binary32.IsNaN value.bits
def JDouble.IsNaN (value : JDouble) : Prop := binary64.IsNaN value.bits

instance (value : JFloat) : Decidable value.IsNaN :=
  inferInstanceAs (Decidable (binary32.IsNaN value.bits))

instance (value : JDouble) : Decidable value.IsNaN :=
  inferInstanceAs (Decidable (binary64.IsNaN value.bits))

/-- `Float.floatToIntBits`: `0x7fc00000` for every NaN. -/
def floatToIntBits (value : JFloat) : JInt := binary32.normalize 0x7FC00000 value.bits

def intBitsToFloat (bits : JInt) : JFloat := ⟨bits⟩

/-- `Double.doubleToLongBits`: `0x7ff8000000000000L` for every NaN. -/
def doubleToLongBits (value : JDouble) : JLong := binary64.normalize 0x7FF8000000000000 value.bits

def longBitsToDouble (bits : JLong) : JDouble := ⟨bits⟩

/-- `Utils.swap(float)`. -/
def swapFloat (value : JFloat) : JFloat :=
  let intValue := floatToIntBits value
  let intValue := swapInt intValue
  intBitsToFloat intValue

/-- `Utils.swap(double)`. -/
def swapDouble (value : JDouble) : JDouble :=
  let longValue := doubleToLongBits value
  let longValue := swapLong longValue
  longBitsToDouble longValue

/-! ## Section 2: The integer overloads -/

theorem swapShort_reverses : Reverses 2 swapShort := by
  intro v i hi
  -- the bytes of the `int` are those of the `short`
  simp (disch := omega) only [swapShort, sshiftRight_and_mask, byteOf_signExtend]
  simp (disch := omega) only [and_mask, byteOf_setWidth, byteOf_or, byteOf_shiftLeft,
    byteOf_signExtend]
  interval_cases i <;> simp

theorem swapInt_reverses : Reverses 4 swapInt := by
  intro v i hi
  simp (disch := omega) only [swapInt, sshiftRight_and_mask, byteOf_or, byteOf_shiftLeft]
  interval_cases i <;> simp

theorem swapLong_reverses : Reverses 8 swapLong := by
  intro v i hi
  simp (disch := omega) only [swapLong, sshiftRight_and_mask, byteOf_or, byteOf_shiftLeft]
  interval_cases i <;> simp

theorem swapInt_involutive : Function.Involutive swapInt := swapInt_reverses.involutive rfl

theorem swapLong_involutive : Function.Involutive swapLong := swapLong_reverses.involutive rfl

/-- **Endian conversion**: a number that was loaded in the order of the host
    and is then swapped is the one that stands there in network byte order. -/
theorem swap_loadLE (m : Memory 64) (a : Addr) :
    (swapShort (BitVec.ofNat 16 (loadLE m a 2))).toNat = ofBytesBE (bytesAt m a 2) ∧
    (swapInt (BitVec.ofNat 32 (loadLE m a 4))).toNat = ofBytesBE (bytesAt m a 4) ∧
    (swapLong (BitVec.ofNat 64 (loadLE m a 8))).toNat = ofBytesBE (bytesAt m a 8) :=
  ⟨swapShort_reverses.loadLE rfl m a, swapInt_reverses.loadLE rfl m a,
    swapLong_reverses.loadLE rfl m a⟩

/-! ## Section 3: The floating-point overloads -/

/-- `float`: the only NaN that survives the way back is the one that
    `floatToIntBits` returns. -/
theorem swapFloat_swapFloat_iff {v : JFloat} (hv : ¬ v.IsNaN) :
    (swapFloat (swapFloat v)).bits = v.bits ↔
      (NaNBytes 0x80 4 (fun i => byteOf i v.bits) → v.bits = 0x0000C07F) := by
  have hnan : binary32.IsNaN (swapInt v.bits) ↔ NaNBytes 0x80 4 fun i => byteOf i v.bits :=
    Format.isNaN_reverses_iff (show 7 < 8 by decide) swapInt_reverses v.bits
  have hswapped : swapInt 0x7FC00000 = 0x0000C07F := by decide
  rw [← hnan, ← hswapped]
  exact binary32.normalized_involution_iff swapInt_involutive 0x7FC00000 hv

/-- `double`, in the same way. -/
theorem swapDouble_swapDouble_iff {v : JDouble} (hv : ¬ v.IsNaN) :
    (swapDouble (swapDouble v)).bits = v.bits ↔
      (NaNBytes 0xF0 8 (fun i => byteOf i v.bits) → v.bits = 0x000000000000F87F) := by
  have hnan : binary64.IsNaN (swapLong v.bits) ↔ NaNBytes 0xF0 8 fun i => byteOf i v.bits :=
    Format.isNaN_reverses_iff (show 4 < 8 by decide) swapLong_reverses v.bits
  have hswapped : swapLong 0x7FF8000000000000 = 0x000000000000F87F := by decide
  rw [← hnan, ← hswapped]
  exact binary64.normalized_involution_iff swapLong_involutive 0x7FF8000000000000 hv

/-! ## Section 4: All five overloads -/

/-- **Main**: the integer overloads reverse the bytes and undo themselves. The
    floating-point overloads undo themselves on a number exactly when its
    bytes, lowest first, are not those of a NaN, or are those of the one NaN
    that is read as it is. -/
theorem swap_involution_iff (s : JShort) (n : JInt) (l : JLong) (x : JFloat) (y : JDouble) :
    ((∀ i < 2, byteOf i (swapShort s) = byteOf (2 - 1 - i) s) ∧ swapShort (swapShort s) = s) ∧
    ((∀ i < 4, byteOf i (swapInt n) = byteOf (4 - 1 - i) n) ∧ swapInt (swapInt n) = n) ∧
    ((∀ i < 8, byteOf i (swapLong l) = byteOf (8 - 1 - i) l) ∧ swapLong (swapLong l) = l) ∧
    (¬ x.IsNaN → ((swapFloat (swapFloat x)).bits = x.bits ↔
      (NaNBytes 0x80 4 (fun i => byteOf i x.bits) → x.bits = 0x0000C07F))) ∧
    (¬ y.IsNaN → ((swapDouble (swapDouble y)).bits = y.bits ↔
      (NaNBytes 0xF0 8 (fun i => byteOf i y.bits) → y.bits = 0x000000000000F87F))) := by
  refine ⟨?_, ?_, ?_, ?_, ?_⟩
  · exact ⟨swapShort_reverses s, swapShort_reverses.involutive rfl s⟩
  · exact ⟨swapInt_reverses n, swapInt_involutive n⟩
  · exact ⟨swapLong_reverses l, swapLong_involutive l⟩
  · exact fun hx => swapFloat_swapFloat_iff hx
  · exact fun hy => swapDouble_swapDouble_iff hy

/-- The number 1 comes back in both precisions. -/
theorem swap_involution_one :
    (swapFloat (swapFloat ⟨0x3F800000⟩)).bits = 0x3F800000 ∧
    (swapDouble (swapDouble ⟨0x3FF0000000000000⟩)).bits = 0x3FF0000000000000 := by
  obtain ⟨-, -, -, hfloat, hdouble⟩ :=
    swap_involution_iff 0 0 0 ⟨0x3F800000⟩ ⟨0x3FF0000000000000⟩
  constructor
  · apply (hfloat (by decide)).mpr
    rintro ⟨hfirst, -⟩
    exact absurd hfirst (by decide)
  · apply (hdouble (by decide)).mpr
    rintro ⟨hfirst, -⟩
    exact absurd hfirst (by decide)

/-- Numbers whose reversed bytes are those of a signalling NaN: the second swap
    starts from the other NaN. -/
theorem swap_loses_number :
    (¬ JFloat.IsNaN ⟨0x0100807F⟩ ∧ swapFloat ⟨0x0100807F⟩ = ⟨0x7F800001⟩ ∧
      swapFloat (swapFloat ⟨0x0100807F⟩) = ⟨0x0000C07F⟩) ∧
    (¬ JDouble.IsNaN ⟨0x010000000000F07F⟩ ∧
      swapDouble ⟨0x010000000000F07F⟩ = ⟨0x7FF0000000000001⟩ ∧
      swapDouble (swapDouble ⟨0x010000000000F07F⟩) = ⟨0x000000000000F87F⟩) ∧
    ¬ ((∀ v : JFloat, ¬ v.IsNaN → (swapFloat (swapFloat v)).bits = v.bits) ∧
      ∀ v : JDouble, ¬ v.IsNaN → (swapDouble (swapDouble v)).bits = v.bits) := by
  refine ⟨by decide, by decide, ?_⟩
  rintro ⟨hfloat, -⟩
  exact absurd (hfloat ⟨0x0100807F⟩ (by decide)) (by decide)

end PacketPro
