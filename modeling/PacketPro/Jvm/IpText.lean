import PacketPro.Framework.BitPatterns
import PacketPro.Jvm.Blacklist

/-! # Addresses as Text

    `Utils.intToIp` prints the four bytes of a number as a dotted quad, the
    highest first, and `Utils.IpToInt` reads one. On the numbers below `2 ^ 32`
    and the dotted quads without leading zeros they are inverse to each other.

    `IpToInt` has no check of its own. It returns whenever `Integer.parseInt`
    takes every piece between the dots, however many there are and whatever
    their values.
-/

open BitPatterns

namespace PacketPro

/-! ## Section 1: Definitions -/

/-- The text is put together by a `StringBuilder`. -/
def intToIp (value : JLong) : JString :=
  longToString (value.sshiftRight 24 &&& 0xFF) ++ [dot] ++
  longToString (value.sshiftRight 16 &&& 0xFF) ++ [dot] ++
  longToString (value.sshiftRight 8 &&& 0xFF) ++ [dot] ++
  longToString (value &&& 0xFF)

/-- Four dot-separated numbers from 0 to 255, without leading zeros. -/
def IsPlainQuad (s : JString) : Prop :=
  ∃ s₁ s₂ s₃ s₄ : JString, s = [dot].intercalate [s₁, s₂, s₃, s₄] ∧
    ∀ piece ∈ [s₁, s₂, s₃, s₄], IsPlainNumeral piece ∧ decimal piece ≤ 255

/-! ## Section 2: Printing -/

namespace Quad

/-- The bytes of a number, highest first. -/
def ofNumber (v : Nat) : Quad :=
  ⟨BitVec.ofNat 8 (v / 2 ^ 24), BitVec.ofNat 8 (v / 2 ^ 16), BitVec.ofNat 8 (v / 2 ^ 8),
    BitVec.ofNat 8 v⟩

theorem ofNumber_value {v : Nat} (hv : v < 2 ^ 32) : (ofNumber v).value = v := by
  simp only [ofNumber, value, BitVec.toNat_ofNat]
  omega

/-- The text of an address. -/
def toText (q : Quad) : JString :=
  [dot].intercalate [numeral q.a.toNat, numeral q.b.toNat, numeral q.c.toNat, numeral q.d.toNat]

end Quad

theorem numeral_isOctet (v : BitVec 8) : IsOctet (numeral v.toNat) v :=
  ⟨numeral_ne_nil _, numeral_digits _, decimal_numeral _⟩

theorem Quad.toText_denotes (q : Quad) : Denotes q.toText q :=
  ⟨_, _, _, _, rfl, numeral_isOctet q.a, numeral_isOctet q.b, numeral_isOctet q.c,
    numeral_isOctet q.d⟩

/-- The text of a byte that a mask has selected. -/
theorem longToString_byte (b : BitVec 8) : longToString (b.setWidth 64) = numeral b.toNat := by
  have hb := b.isLt
  have hcast : b.setWidth 64 = BitVec.ofNat 64 b.toNat := (BitVec.ofNat_toNat 64 b).symm
  rw [hcast]
  exact longToString_ofNat (by omega)

/-- `intToIp` prints the address whose number it is given. -/
theorem intToIp_ofNat {v : Nat} (hv : v < 2 ^ 32) :
    intToIp (BitVec.ofNat 64 v) = (Quad.ofNumber v).toText := by
  have hlt : v < 2 ^ 64 := by omega
  unfold intToIp
  rw [sshiftRight_and_mask (by decide) (by decide), sshiftRight_and_mask (by decide) (by decide),
    sshiftRight_and_mask (by decide) (by decide), and_mask _ (by decide)]
  simp only [longToString_byte, byteOf_ofNat hlt]
  simp [Quad.toText, Quad.ofNumber, List.intercalate]

/-! ## Section 3: The round trips -/

/-- A plain quad is the text of an address. -/
theorem IsPlainQuad.eq_toText {s : JString} (h : IsPlainQuad s) : ∃ q : Quad, s = q.toText := by
  obtain ⟨s₁, s₂, s₃, s₄, rfl, hpieces⟩ := h
  have hpiece : ∀ piece ∈ [s₁, s₂, s₃, s₄],
      numeral (BitVec.ofNat 8 (decimal piece)).toNat = piece := by
    intro piece hmem
    obtain ⟨hplain, hle⟩ := hpieces piece hmem
    rw [BitVec.toNat_ofNat, Nat.mod_eq_of_lt (by omega)]
    exact numeral_decimal hplain
  refine ⟨⟨BitVec.ofNat 8 (decimal s₁), BitVec.ofNat 8 (decimal s₂), BitVec.ofNat 8 (decimal s₃),
    BitVec.ofNat 8 (decimal s₄)⟩, ?_⟩
  simp only [Quad.toText]
  rw [hpiece s₁ (by simp), hpiece s₂ (by simp), hpiece s₃ (by simp), hpiece s₄ (by simp)]

/-- **Main**: reading what was printed and printing what was read. -/
theorem ipText_roundTrip :
    (∀ v : JLong, 0 ≤ v.toInt → v.toInt < 2 ^ 32 → IpToInt (intToIp v) = some v) ∧
    (∀ s : JString, IsPlainQuad s → (IpToInt s).map intToIp = some s) := by
  constructor
  · intro v hlo hhi
    have hv : v.toNat < 2 ^ 32 := by
      have hlt := v.isLt
      rw [BitVec.toInt_eq_toNat_cond] at hlo hhi
      split at hlo <;> omega
    have hprint := intToIp_ofNat hv
    rw [BitVec.ofNat_toNat, BitVec.setWidth_eq] at hprint
    rw [hprint, IpToInt_of_denotes (Quad.toText_denotes _), Quad.ofNumber_value hv,
      BitVec.ofNat_toNat, BitVec.setWidth_eq]
  · intro s hs
    obtain ⟨q, rfl⟩ := hs.eq_toText
    have hsame : Quad.ofNumber q.value = q := Quad.value_injective (Quad.ofNumber_value q.value_lt)
    rw [IpToInt_of_denotes q.toText_denotes, Option.map_some, intToIp_ofNat q.value_lt, hsame]

theorem Quad.toText_isPlainQuad (q : Quad) : IsPlainQuad q.toText := by
  have hoctet (v : BitVec 8) :
      IsPlainNumeral (numeral v.toNat) ∧ decimal (numeral v.toNat) ≤ 255 := by
    have hlt := v.isLt
    refine ⟨numeral_isPlain _, ?_⟩
    rw [decimal_numeral]
    omega
  refine ⟨_, _, _, _, rfl, ?_⟩
  simp only [List.forall_mem_cons, hoctet, List.not_mem_nil, false_imp_iff, implies_true, and_self]

/-- The address `10.0.0.1`. -/
theorem ipText_roundTrip_ten :
    let s := Quad.toText ⟨10, 0, 0, 1⟩
    IpToInt (intToIp 0x0A000001) = some 0x0A000001 ∧ (IpToInt s).map intToIp = some s :=
  ⟨ipText_roundTrip.1 0x0A000001 (by decide) (by decide),
    ipText_roundTrip.2 _ (Quad.toText_isPlainQuad _)⟩

/-! ## Section 4: What is accepted -/

theorem ipLoop_isSome_iff (i : Nat) (n : JLong) (parts : List JString) :
    (ipLoop i n parts).isSome ↔ ∀ part ∈ parts, IsIntNumeral part := by
  induction parts generalizing i n with
  | nil => simp [ipLoop]
  | cons part parts ih =>
    rw [List.forall_mem_cons, ← parseInt_isSome_iff]
    cases hpart : parseInt part with
    | none => simp [ipLoop, hpart]
    | some value =>
      rw [ipLoop, hpart, Option.bind_eq_bind, Option.bind_some, ih]
      simp

theorem IpToInt_isSome_iff (s : JString) :
    (IpToInt s).isSome ↔ ∀ piece ∈ split s dot, IsIntNumeral piece :=
  ipLoop_isSome_iff 0 0 (split s dot)

/-- The remainders of up to four numbers, weighed from the `i`-th place on. A
    negative number has a negative remainder. -/
def weighedSum : Nat → List JInt → Int
  | _, [] => 0
  | i, v :: vs => v.toInt.tmod 256 * 256 ^ (3 - i) + weighedSum (i + 1) vs

/-- **Run lemma** of the loop: up to the fourth piece, the sum is exact. -/
theorem ipLoop_weighedSum (parts : List JString) (vs : List JInt) (i : Nat) {n : Int}
    (hparts : parts.map parseInt = vs.map some) (hi : i + parts.length ≤ 4)
    (hn : |n| ≤ i * 2 ^ 32) :
    ipLoop i (BitVec.ofInt 64 n) parts = some (BitVec.ofInt 64 (n + weighedSum i vs)) := by
  induction parts generalizing vs i n with
  | nil =>
    obtain rfl : vs = [] := by simpa using hparts.symm
    rw [ipLoop, weighedSum, Int.add_zero]
  | cons part parts ih =>
    cases vs with
    | nil => cases hparts
    | cons v vs =>
      rw [List.map_cons, List.map_cons, List.cons.injEq] at hparts
      rw [List.length_cons] at hi
      have hpower : (3 : Int) - i = ((3 - i : Nat) : Int) := by omega
      have hsmall : |n| < 2 ^ 40 := by omega
      have hadded : |n + v.toInt.tmod 256 * 256 ^ (3 - i)| ≤ ((i + 1 : Nat) : Int) * 2 ^ 32 := by
        have hweight : (256 : Int) ^ (3 - i) ≤ 256 ^ 3 :=
          pow_le_pow_right₀ (by decide) (by omega)
        have hlo := Int.lt_tmod_of_pos v.toInt (b := 256) (by decide)
        have hhi := Int.tmod_lt_of_pos v.toInt (b := 256) (by decide)
        have hterm : |v.toInt.tmod 256 * 256 ^ (3 - i)| ≤ 256 * 256 ^ 3 := by
          rw [abs_mul]
          apply mul_le_mul (abs_le.mpr ⟨by omega, by omega⟩) _ (abs_nonneg _) (by decide)
          rwa [abs_of_nonneg (by positivity)]
        have htriangle := abs_add_le n (v.toInt.tmod 256 * 256 ^ (3 - i))
        push_cast
        omega
      rw [ipLoop, hparts.1, Option.bind_eq_bind, Option.bind_some, hpower,
        addPart_exact hsmall v (by omega), ih vs (i + 1) hparts.2 (by omega) hadded, weighedSum,
        Int.add_assoc]

/-- **Main**: `IpToInt` returns if and only if every piece between the dots is
    an `int`. Of up to four pieces it returns the weighed sum of remainders,
    which for a dotted quad is the address it denotes. Each line of a file
    that is read adds its number to the blacklist. -/
theorem IpToInt_accepts :
    (∀ s, (IpToInt s).isSome ↔ ∀ piece ∈ split s dot, IsIntNumeral piece) ∧
    (∀ s vs, (split s dot).map parseInt = vs.map some → vs.length ≤ 4 →
      IpToInt s = some (BitVec.ofInt 64 (weighedSum 0 vs))) ∧
    (∀ s q, Denotes s q → IpToInt s = some (BitVec.ofNat 64 q.value) ∧ q.value < 2 ^ 32) ∧
    (∀ lines blacklist, readBlacklist (some lines) = some blacklist → ∀ x,
      x ∈ blacklist ↔ ∃ line ∈ lines, IpToInt line = some x) := by
  refine ⟨IpToInt_isSome_iff, ?_, fun s q h => ⟨IpToInt_of_denotes h, q.value_lt⟩, ?_⟩
  · intro s vs hpieces hlen
    have hcount := congrArg List.length hpieces
    rw [List.length_map, List.length_map] at hcount
    have h := ipLoop_weighedSum (split s dot) vs 0 hpieces (by omega) (n := 0) (by simp)
    rwa [Int.zero_add] at h
  · intro lines blacklist hread x
    rw [readLines_mem hread]
    simp

/-- The line `1.2.3`. -/
def threePieces : JString := text ['1', '.', '2', '.', '3']

theorem split_threePieces : split threePieces dot = [text ['1'], text ['2'], text ['3']] := by
  decide +kernel

/-- A dotted quad has four pieces. -/
theorem Denotes.length_split {s : JString} {q : Quad} (h : Denotes s q) :
    (split s dot).length = 4 := by
  obtain ⟨s₁, s₂, s₃, s₄, rfl, h₁, h₂, h₃, h₄⟩ := h
  rw [split_octets h₁ h₂ h₃ h₄]
  rfl

/-- Three pieces are read as the address `1.2.3.0`. -/
theorem IpToInt_accepts_threePieces :
    IpToInt threePieces = some (BitVec.ofInt 64 (weighedSum 0 [1, 2, 3])) ∧
    weighedSum 0 [1, 2, 3] = 1 * 2 ^ 24 + 2 * 2 ^ 16 + 3 * 2 ^ 8 := by
  refine ⟨IpToInt_accepts.2.1 threePieces [1, 2, 3] ?_ (by decide), by decide⟩
  rw [split_threePieces]
  decide +kernel

/-- A line that is no dotted quad is accepted all the same. -/
theorem IpToInt_accepts_no_quad :
    ¬ ∀ s, (IpToInt s).isSome ↔ ∃ q, Denotes s q := by
  intro h
  have hreturns : (IpToInt threePieces).isSome := by
    rw [IpToInt_isSome_iff, split_threePieces]
    simp only [← parseInt_isSome_iff]
    decide +kernel
  obtain ⟨q, hq⟩ := (h threePieces).mp hreturns
  have hlength := hq.length_split
  rw [split_threePieces] at hlength
  cases hlength

end PacketPro
