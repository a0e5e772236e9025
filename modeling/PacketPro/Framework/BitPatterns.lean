import Mathlib.Logic.Function.Basic
import PacketPro.Framework.Layout

/-! # Bit Patterns

    A bit vector as the bytes it consists of, and as a floating-point number in
    a binary interchange format.

    * **Bytes**: `byteOf`, and the bytes of what shifts, masks and casts make
      of a value. A value is determined by its bytes (`eq_of_byteOf`).
    * **Reversal**: a function that puts the bytes of every value in reverse
      order is an involution, however it computes them.
    * **Formats**: which patterns are a NaN. An involution on patterns that is
      run through values whose NaNs are all read as one pattern is no longer an
      involution; `normalized_involution_iff` says where it still is one.
-/

open ByteMem

namespace BitPatterns

variable {w : Nat}

/-! ## Section 1: Bytes -/

/-- Byte `i`, counted from the least significant one. -/
def byteOf (i : Nat) (v : BitVec w) : BitVec 8 := v.extractLsb' (8 * i) 8

theorem byteOf_toNat (i : Nat) (v : BitVec w) :
    (byteOf i v).toNat = v.toNat / 2 ^ (8 * i) % 256 := by
  rw [byteOf, BitVec.extractLsb'_toNat, Nat.shiftRight_eq_div_pow]

theorem byteOf_ofNat {v : Nat} (hv : v < 2 ^ w) (i : Nat) :
    byteOf i (BitVec.ofNat w v) = BitVec.ofNat 8 (v / 2 ^ (8 * i)) := by
  apply BitVec.eq_of_toNat_eq
  rw [byteOf_toNat, BitVec.toNat_ofNat, BitVec.toNat_ofNat, Nat.mod_eq_of_lt hv]

/-- The low bytes are zero together. -/
theorem mod_eq_zero_iff_byteOf (n : Nat) (v : BitVec w) :
    v.toNat % 2 ^ (8 * n) = 0 ↔ ∀ i < n, byteOf i v = 0#8 := by
  induction n with
  | zero => simp [Nat.mod_one]
  | succ n ih =>
    have hsplit : v.toNat % 2 ^ (8 * (n + 1)) =
        v.toNat % 2 ^ (8 * n) + 2 ^ (8 * n) * (byteOf n v).toNat := by
      rw [byteOf_toNat, Nat.mul_add, Nat.pow_add]
      exact Nat.mod_mul
    have hpos : 2 ^ (8 * n) ≠ 0 := Nat.ne_of_gt (Nat.two_pow_pos _)
    have hbyte : (byteOf n v).toNat = 0 ↔ byteOf n v = 0#8 := BitVec.toNat_inj (y := 0#8)
    rw [hsplit, Nat.add_eq_zero_iff, Nat.mul_eq_zero, or_iff_right hpos, ih, hbyte,
      Nat.forall_lt_succ_right]

theorem getLsbD_byteOf (i k : Nat) (v : BitVec w) :
    (byteOf i v).getLsbD k = (decide (k < 8) && v.getLsbD (8 * i + k)) :=
  BitVec.getLsbD_extractLsb' ..

/-- A value is determined by its bytes. -/
theorem eq_of_byteOf {n : Nat} (hw : w = 8 * n) {x y : BitVec w}
    (h : ∀ i < n, byteOf i x = byteOf i y) : x = y := by
  apply BitVec.eq_of_getLsbD_eq
  intro k hk
  -- bit `k` is bit `k % 8` of byte `k / 8`
  have hbyte := congrArg (BitVec.getLsbD · (k % 8)) (h (k / 8) (by omega))
  have hmod : k % 8 < 8 := Nat.mod_lt _ (by decide)
  simp only [getLsbD_byteOf, hmod, decide_true, Bool.true_and, Nat.div_add_mod] at hbyte
  exact hbyte

@[simp] theorem byteOf_or (i : Nat) (x y : BitVec w) :
    byteOf i (x ||| y) = byteOf i x ||| byteOf i y := BitVec.extractLsb'_or

theorem byteOf_setWidth {i n : Nat} (hi : 8 * i + 8 ≤ n) (v : BitVec w) :
    byteOf i (v.setWidth n) = byteOf i v := by
  apply BitVec.eq_of_getLsbD_eq
  intro k hk
  have hn : 8 * i + k < n := by omega
  simp only [getLsbD_byteOf, BitVec.getLsbD_setWidth, hn, decide_true, Bool.true_and]

theorem byteOf_signExtend {i n : Nat} (hw : 8 * i + 8 ≤ w) (hn : w ≤ n) (v : BitVec w) :
    byteOf i (v.signExtend n) = byteOf i v := by
  apply BitVec.eq_of_getLsbD_eq
  intro k hk
  have hlt : 8 * i + k < w := by omega
  have hlt' : 8 * i + k < n := by omega
  simp only [getLsbD_byteOf, BitVec.getLsbD_signExtend, hlt, hlt', decide_true, Bool.true_and,
    if_true]

/-- A byte shifted into place. -/
theorem byteOf_shiftLeft {s i : Nat} (hs : s % 8 = 0) (hi : 8 * i + 8 ≤ w) (b : BitVec 8) :
    byteOf i (b.setWidth w <<< s) = if 8 * i = s then b else 0#8 := by
  apply BitVec.eq_of_getLsbD_eq
  intro k hk
  have hw : 8 * i + k < w := by omega
  simp only [getLsbD_byteOf, BitVec.getLsbD_shiftLeft, BitVec.getLsbD_setWidth, hk, hw, decide_true,
    Bool.true_and]
  by_cases hhere : 8 * i = s
  · have hle : ¬ 8 * i + k < s := by omega
    have hback : 8 * i + k - s = k := by omega
    have hk' : k < w := by omega
    simp only [if_pos hhere, hle, decide_false, Bool.not_false, Bool.true_and, hback, hk',
      decide_true]
  · rw [if_neg hhere]
    by_cases hbefore : 8 * i + k < s
    · simp only [hbefore, decide_true, Bool.not_true, Bool.false_and, BitVec.getLsbD_zero]
    · -- the byte lies below
      have habove : 8 ≤ 8 * i + k - s := by omega
      rw [BitVec.getLsbD_of_ge b _ habove]
      simp

/-- The low byte, as a mask selects it. -/
theorem and_mask (v : BitVec w) (hw : 8 ≤ w) : v &&& 0xFF = (byteOf 0 v).setWidth w := by
  apply BitVec.eq_of_toNat_eq
  have hpow : 2 ^ 8 ≤ 2 ^ w := Nat.pow_le_pow_right (by decide) hw
  have hmask : 255 % 2 ^ w = 2 ^ 8 - 1 := Nat.mod_eq_of_lt (by omega)
  have hbyte : (byteOf 0 v).toNat % 2 ^ w = (byteOf 0 v).toNat :=
    Nat.mod_eq_of_lt (Nat.lt_of_lt_of_le (byteOf 0 v).isLt hpow)
  rw [BitVec.ofNat_eq_ofNat, BitVec.toNat_and, BitVec.toNat_ofNat, hmask,
    Nat.and_two_pow_sub_one_eq_mod, BitVec.toNat_setWidth, hbyte, byteOf_toNat]
  simp

/-- A byte, as an arithmetic shift and a mask select it. -/
theorem sshiftRight_and_mask {s : Nat} (hs : s % 8 = 0) (hw : s + 8 ≤ w) (v : BitVec w) :
    v.sshiftRight s &&& 0xFF = (byteOf (s / 8) v).setWidth w := by
  have hshift : byteOf 0 (v.sshiftRight s) = byteOf (s / 8) v := by
    apply BitVec.eq_of_getLsbD_eq
    intro k hk
    have hlow : ¬ w ≤ k := by omega
    have hin : s + k < w := by omega
    have hbit : 8 * (s / 8) + k = s + k := by omega
    simp only [getLsbD_byteOf, Nat.mul_zero, Nat.zero_add, BitVec.getLsbD_sshiftRight, hlow,
      decide_false, Bool.not_false, Bool.true_and, hin, if_true, hbit]
  rw [and_mask _ (by omega), hshift]

/-- The bytes of a value, as a list. -/
theorem bytesLE_toNat (n : Nat) (v : BitVec w) :
    bytesLE n v.toNat = (List.range n).map fun i => byteOf i v := by
  have hbytes : ∀ (n x j : Nat), x = v.toNat / 2 ^ (8 * j) →
      bytesLE n x = (List.range' j n).map fun i => byteOf i v := by
    intro n
    induction n with
    | zero => exact fun _ _ _ => rfl
    | succ n ih =>
      intro x j hx
      have hhead : BitVec.ofNat 8 x = byteOf j v := by
        apply BitVec.eq_of_toNat_eq
        rw [BitVec.toNat_ofNat, byteOf_toNat, hx]
      have htail : x / 256 = v.toNat / 2 ^ (8 * (j + 1)) := by
        rw [hx, Nat.div_div_eq_div_mul, Nat.mul_add, Nat.pow_add]
      rw [bytesLE, List.range'_succ, List.map_cons, hhead, ih _ _ htail]
  rw [List.range_eq_range']
  exact hbytes n v.toNat 0 (by simp)

/-! ## Section 2: Reversal -/

/-- The `n` bytes of every value come out in reverse order. -/
def Reverses (n : Nat) (f : BitVec w → BitVec w) : Prop :=
  ∀ v, ∀ i < n, byteOf i (f v) = byteOf (n - 1 - i) v

theorem Reverses.involutive {n : Nat} {f : BitVec w → BitVec w} (h : Reverses n f)
    (hw : w = 8 * n) : Function.Involutive f := by
  intro v
  apply eq_of_byteOf hw
  intro i hi
  have hback : n - 1 - (n - 1 - i) = i := by omega
  rw [h (f v) i hi, h v (n - 1 - i) (by omega), hback]

/-- A reversed value is the number that its bytes stand for in the other
    order. -/
theorem Reverses.toNat_eq {n : Nat} {f : BitVec w → BitVec w} (h : Reverses n f)
    (hw : w = 8 * n) (v : BitVec w) : (f v).toNat = ofBytesBE (bytesLE n v.toNat) := by
  have hbytes : bytesLE n (f v).toNat = (bytesLE n v.toNat).reverse := by
    rw [bytesLE_toNat, bytesLE_toNat]
    apply List.ext_getElem
    · simp
    · intro i hi _
      rw [List.length_map, List.length_range] at hi
      simp [h v i hi]
  have hlt : (f v).toNat < 256 ^ n := by
    have h256 : 256 ^ n = 2 ^ w := by rw [hw, Nat.pow_mul]
    rw [h256]
    exact (f v).isLt
  rw [ofBytesBE, ← hbytes, ofBytesLE_bytesLE hlt]

/-- What was loaded least significant byte first and is then reversed is the
    number that stands there most significant byte first. -/
theorem Reverses.loadLE {n k : Nat} {f : BitVec w → BitVec w} (h : Reverses n f)
    (hw : w = 8 * n) (m : Memory k) (a : BitVec k) :
    (f (BitVec.ofNat w (loadLE m a n))).toNat = ofBytesBE (bytesAt m a n) := by
  have hlt : ByteMem.loadLE m a n < 2 ^ w := by
    rw [hw, Nat.pow_mul]
    exact loadLE_lt m a n
  rw [h.toNat_eq hw, BitVec.toNat_ofNat, Nat.mod_eq_of_lt hlt, bytesLE_loadLE]

/-! ## Section 3: Interchange formats -/

/-- A binary interchange format, by the widths of its exponent and fraction
    fields. -/
structure Format where
  exponent : Nat
  fraction : Nat

/-- These `n` bytes, most significant first, are a NaN, in a format where
    infinity has `second` as its second byte. -/
def NaNBytes (second n : Nat) (b : Nat → BitVec 8) : Prop :=
  (b 0).toNat % 128 = 127 ∧ second ≤ (b 1).toNat ∧
    ¬ ((b 1).toNat = second ∧ ∀ i < n, 2 ≤ i → b i = 0#8)

namespace Format

variable (F : Format)

/-- The exponent is all ones and the fraction is not zero. -/
def IsNaN (x : BitVec w) : Prop :=
  x.toNat / 2 ^ F.fraction % 2 ^ F.exponent = 2 ^ F.exponent - 1 ∧ x.toNat % 2 ^ F.fraction ≠ 0

instance (x : BitVec w) : Decidable (F.IsNaN x) := inferInstanceAs (Decidable (_ ∧ _))

/-- Of two bytes `y`, a sign and an exponent that is all ones. -/
theorem exponent_full_iff {y r : Nat} (hr : r < 8) :
    y / 2 ^ r % 2 ^ (15 - r) = 2 ^ (15 - r) - 1 ↔
      y / 256 % 128 = 127 ∧ 256 - 2 ^ r ≤ y % 256 := by
  interval_cases r <;> omega

/-- The start of the fraction behind such an exponent. -/
theorem fraction_start_iff {y r : Nat} (hr : r < 8) (hfull : 256 - 2 ^ r ≤ y % 256) :
    y % 2 ^ r = 0 ↔ y % 256 = 256 - 2 ^ r := by
  interval_cases r <;> omega

/-- **NaNs by their bytes**: the first byte and the start of the second are the
    exponent, the rest is the fraction. -/
theorem isNaN_iff_bytes {n r : Nat} (hr : r < 8) (x : BitVec w) :
    (⟨15 - r, 8 * n + r⟩ : Format).IsNaN x ↔
      NaNBytes (256 - 2 ^ r) (n + 2) fun i => byteOf (n + 1 - i) x := by
  -- `y` is the first two bytes
  obtain ⟨y, hy⟩ : ∃ y, y = x.toNat / 2 ^ (8 * n) := ⟨_, rfl⟩
  have hfirst : (byteOf (n + 1) x).toNat % 128 = y / 256 % 128 := by
    rw [byteOf_toNat, Nat.mul_add, Nat.pow_add, ← Nat.div_div_eq_div_mul, ← hy]
    omega
  have hsecond : (byteOf n x).toNat = y % 256 := by
    rw [byteOf_toNat, ← hy]
  have hexponent : x.toNat / 2 ^ (8 * n + r) = y / 2 ^ r := by
    rw [Nat.pow_add, ← Nat.div_div_eq_div_mul, ← hy]
  have hfraction : x.toNat % 2 ^ (8 * n + r) = 0 ↔
      (∀ i < n, byteOf i x = 0#8) ∧ y % 2 ^ r = 0 := by
    have hpos : 2 ^ (8 * n) ≠ 0 := Nat.ne_of_gt (Nat.two_pow_pos _)
    rw [Nat.pow_add, Nat.mod_mul, ← hy, Nat.add_eq_zero_iff, Nat.mul_eq_zero, or_iff_right hpos,
      mod_eq_zero_iff_byteOf]
  have hrest : (∀ i < n + 2, 2 ≤ i → byteOf (n + 1 - i) x = 0#8) ↔
      ∀ i < n, byteOf i x = 0#8 := by
    constructor
    · intro h i hi
      have hi' := h (n + 1 - i) (by omega) (by omega)
      rwa [show n + 1 - (n + 1 - i) = i by omega] at hi'
    · intro h i hi hle
      exact h (n + 1 - i) (by omega)
  simp only [IsNaN, NaNBytes, hexponent, ne_eq, hfraction, hrest, Nat.sub_zero, hfirst,
    Nat.add_sub_cancel, hsecond]
  rw [exponent_full_iff hr, and_assoc]
  refine and_congr_right fun _ => and_congr_right fun hfull => ?_
  rw [fraction_start_iff hr hfull, and_comm]

/-- What a reversal turns into a NaN: the bytes are read from the other end. -/
theorem isNaN_reverses_iff {n r : Nat} (hr : r < 8) {f : BitVec w → BitVec w}
    (h : Reverses (n + 2) f) (x : BitVec w) :
    (⟨15 - r, 8 * n + r⟩ : Format).IsNaN (f x) ↔
      NaNBytes (256 - 2 ^ r) (n + 2) fun i => byteOf i x := by
  have hbyte : ∀ i < n + 2, byteOf (n + 1 - i) (f x) = byteOf i x := by
    intro i hi
    rw [h x (n + 1 - i) (by omega), show n + 2 - 1 - (n + 1 - i) = i by omega]
  rw [isNaN_iff_bytes hr, NaNBytes, NaNBytes, hbyte 0 (by omega), hbyte 1 (by omega)]
  have hrest : (∀ i < n + 2, 2 ≤ i → byteOf (n + 1 - i) (f x) = 0#8) ↔
      ∀ i < n + 2, 2 ≤ i → byteOf i x = 0#8 :=
    forall₂_congr fun i hi => by rw [hbyte i hi]
  rw [hrest]

/-- Every NaN is read as the one pattern `nan`. -/
def normalize (nan x : BitVec w) : BitVec w := if F.IsNaN x then nan else x

theorem normalize_eq_self_iff (nan x : BitVec w) :
    F.normalize nan x = x ↔ (F.IsNaN x → x = nan) := by
  unfold normalize
  by_cases hnan : F.IsNaN x
  · rw [if_pos hnan]
    exact ⟨fun h _ => h.symm, fun h => (h hnan).symm⟩
  · rw [if_neg hnan]
    exact iff_of_true rfl fun h => absurd h hnan

/-- An involution that reads its argument normalized undoes itself on the
    values that it does not turn into a NaN, and on the one that it turns into
    `nan` itself. -/
theorem normalized_involution_iff {f : BitVec w → BitVec w} (hf : Function.Involutive f)
    (nan : BitVec w) {x : BitVec w} (hx : ¬ F.IsNaN x) :
    f (F.normalize nan (f (F.normalize nan x))) = x ↔ (F.IsNaN (f x) → x = f nan) := by
  have hread : F.normalize nan x = x := if_neg hx
  calc f (F.normalize nan (f (F.normalize nan x))) = x
      ↔ f (F.normalize nan (f x)) = f (f x) := by rw [hread, hf x]
    _ ↔ F.normalize nan (f x) = f x := hf.injective.eq_iff
    _ ↔ (F.IsNaN (f x) → f x = nan) := F.normalize_eq_self_iff nan (f x)
    _ ↔ (F.IsNaN (f x) → x = f nan) := imp_congr_right fun _ => hf.eq_iff

end Format

end BitPatterns
