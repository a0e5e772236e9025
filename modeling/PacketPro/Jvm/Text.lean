import Mathlib.Data.List.Induction
import PacketPro.World

/-! # Java Strings, `String.split` and `Integer.parseInt`

    The parts of the Java library that the configuration and the blacklist
    are read with. A string is its list of UTF-16 code units.

    * `split` keeps inner empty pieces and drops trailing ones, and gives back
      a string without separator as it is.
    * `parseInt` takes an optional sign and decimal digits of any script, and
      throws (`none`) on everything else and on values beyond an `int`
      (`parseInt_isSome_iff`).
    * `longToString` is the text that a `StringBuilder` appends for a `long`.
-/

namespace PacketPro

/-! ## Section 1: Definitions -/

/-- A UTF-16 code unit. -/
abbrev JChar : Type := BitVec 16
abbrev JString : Type := List JChar

/-- A character of the basic plane as a code unit. -/
def jchar (c : Char) : JChar := BitVec.ofNat 16 c.toNat

/-- A string literal. -/
def text (cs : List Char) : JString := cs.map jchar

def dot : JChar := jchar '.'

/-- `String.split` on a one-character separator. -/
def split (s : JString) (sep : JChar) : List JString :=
  if sep ∈ s then ((s.splitOn sep).reverse.dropWhile (· == [])).reverse else [s]

/-- The zero of each row of decimal digits in the basic plane. -/
def digitZeros : List Nat :=
  [0x0030, 0x0660, 0x06F0, 0x07C0, 0x0966, 0x09E6, 0x0A66, 0x0AE6, 0x0B66, 0x0BE6, 0x0C66, 0x0CE6,
   0x0D66, 0x0E50, 0x0ED0, 0x0F20, 0x1040, 0x1090, 0x17E0, 0x1810, 0x1946, 0x19D0, 0x1A80, 0x1A90,
   0x1B50, 0x1BB0, 0x1C40, 0x1C50, 0xA620, 0xA8D0, 0xA900, 0xA9D0, 0xAA50, 0xABF0, 0xFF10]

/-- `Character.digit(c, 10)`. -/
def digit (c : JChar) : Option Nat :=
  (digitZeros.find? fun z => decide (z ≤ c.toNat ∧ c.toNat < z + 10)).map (c.toNat - ·)

/-- The value of a sequence of digits read after `acc`. -/
def digitsValue : Nat → JString → Option Nat
  | acc, [] => some acc
  | acc, c :: s => do
    let d ← digit c
    digitsValue (acc * 10 + d) s

/-- The sign of a numeral and the digits behind it. -/
def signAndDigits : JString → Bool × JString
  | [] => (false, [])
  | c :: s =>
    if c = jchar '-' then (true, s) else if c = jchar '+' then (false, s) else (false, c :: s)

/-- A signed number as an `int`, if it is in range. -/
def toInt? (negative : Bool) (magnitude : Nat) : Option JInt :=
  let value : Int := if negative then -magnitude else magnitude
  if -2 ^ 31 ≤ value ∧ value < 2 ^ 31 then some (BitVec.ofInt 32 value) else none

/-- `Integer.parseInt(s)`; `none` is a `NumberFormatException`. -/
def parseInt (s : JString) : Option JInt :=
  let (negative, digits) := signAndDigits s
  if digits = [] then none else (digitsValue 0 digits).bind (toInt? negative)

/-- The decimal text of a number. -/
def numeral (n : Nat) : JString := text (Nat.toDigits 10 n)

/-- `Long.toString(value)`. -/
def longToString (value : JLong) : JString :=
  if value.toInt < 0 then jchar '-' :: numeral value.toInt.natAbs
  else numeral value.toInt.natAbs

/-! ## Section 2: Plain decimal numerals -/

/-- An ASCII digit. -/
def IsDigit (c : JChar) : Prop := 0x30 ≤ c.toNat ∧ c.toNat ≤ 0x39

instance (c : JChar) : Decidable (IsDigit c) :=
  inferInstanceAs (Decidable (0x30 ≤ c.toNat ∧ c.toNat ≤ 0x39))

/-- The number that a string of ASCII digits denotes. -/
def decimal (s : JString) : Nat := s.foldl (fun acc c => acc * 10 + (c.toNat - 0x30)) 0

theorem digit_of_isDigit {c : JChar} (h : IsDigit c) : digit c = some (c.toNat - 0x30) := by
  obtain ⟨hlo, hhi⟩ := h
  have hrow : 0x0030 ≤ c.toNat ∧ c.toNat < 0x0030 + 10 := by omega
  unfold digit digitZeros
  rw [List.find?_cons_of_pos (by simpa using hrow)]
  rfl

theorem digitsValue_of_digits {s : JString} (h : ∀ c ∈ s, IsDigit c) (acc : Nat) :
    digitsValue acc s = some (s.foldl (fun acc c => acc * 10 + (c.toNat - 0x30)) acc) := by
  induction s generalizing acc with
  | nil => rfl
  | cons c s ih =>
    have hc := digit_of_isDigit (h c (List.mem_cons_self ..))
    have hs := ih (fun c' hc' => h c' (List.mem_cons_of_mem _ hc')) (acc * 10 + (c.toNat - 0x30))
    rw [digitsValue, hc]
    exact hs

/-- An ASCII digit is neither a sign nor a dot. -/
theorem IsDigit.ne_jchar {c : JChar} (h : IsDigit c) {d : Char} (hd : d.toNat < 0x30) :
    c ≠ jchar d := by
  intro heq
  have htoNat : c.toNat = d.toNat % 2 ^ 16 := by
    rw [heq, jchar, BitVec.toNat_ofNat]
  obtain ⟨hlo, -⟩ := h
  omega

theorem signAndDigits_of_digits {s : JString} (h : ∀ c ∈ s, IsDigit c) :
    signAndDigits s = (false, s) := by
  cases s with
  | nil => rfl
  | cons c s =>
    have hc := h c (List.mem_cons_self ..)
    rw [signAndDigits, if_neg (hc.ne_jchar (by decide)), if_neg (hc.ne_jchar (by decide))]

theorem toInt?_false {v : Nat} (h : v < 2 ^ 31) : toInt? false v = some (BitVec.ofNat 32 v) := by
  have hrange : (-2 ^ 31 : Int) ≤ (v : Int) ∧ (v : Int) < 2 ^ 31 := ⟨by omega, by omega⟩
  have hval : (if false = true then -(v : Int) else (v : Int)) = v := rfl
  unfold toInt?
  rw [hval]
  simp only [hrange, and_self, if_true, BitVec.ofInt_natCast]

/-- **Plain numerals**: a non-empty string of ASCII digits parses to the
    number it denotes, if that is an `int`. -/
theorem parseInt_of_digits {s : JString} (hne : s ≠ []) (h : ∀ c ∈ s, IsDigit c)
    (hlt : decimal s < 2 ^ 31) : parseInt s = some (BitVec.ofNat 32 (decimal s)) := by
  have hvalue : digitsValue 0 s = some (decimal s) := digitsValue_of_digits h 0
  have hunsigned : parseInt s = (digitsValue 0 s).bind (toInt? false) := by
    unfold parseInt
    rw [signAndDigits_of_digits h]
    simp only [if_neg hne]
  rw [hunsigned, hvalue, Option.bind_some, toInt?_false hlt]

/-! ### What `parseInt` accepts -/

/-- An optional sign and at least one digit, with a value that is an `int`. -/
def IsIntNumeral (s : JString) : Prop :=
  ∃ (negative : Bool) (digits : JString) (magnitude : Nat),
    (s = digits ∧ negative = false ∨ s = jchar '+' :: digits ∧ negative = false ∨
      s = jchar '-' :: digits ∧ negative = true) ∧
    digits ≠ [] ∧ digitsValue 0 digits = some magnitude ∧
    magnitude < if negative then 2 ^ 31 + 1 else 2 ^ 31

theorem toInt?_isSome_iff (negative : Bool) (magnitude : Nat) :
    (toInt? negative magnitude).isSome ↔ magnitude < if negative then 2 ^ 31 + 1 else 2 ^ 31 := by
  unfold toInt?
  cases negative with
  | false =>
    simp only [Bool.false_eq_true, if_false]
    split
    · simp only [Option.isSome_some, true_iff]
      omega
    · simp only [Option.isSome_none, Bool.false_eq_true, false_iff]
      omega
  | true =>
    simp only [if_true]
    split
    · simp only [Option.isSome_some, true_iff]
      omega
    · simp only [Option.isSome_none, Bool.false_eq_true, false_iff]
      omega

/-- A numeral that starts with a digit has no sign. -/
theorem signAndDigits_of_digitsValue {s : JString} {acc v : Nat}
    (h : digitsValue acc s = some v) : signAndDigits s = (false, s) := by
  cases s with
  | nil => rfl
  | cons c s =>
    obtain ⟨d, hd, -⟩ := Option.bind_eq_some_iff.mp h
    have hminus : c ≠ jchar '-' := by
      intro hc
      have hnone : digit (jchar '-') = none := by decide
      rw [hc, hnone] at hd
      cases hd
    have hplus : c ≠ jchar '+' := by
      intro hc
      have hnone : digit (jchar '+') = none := by decide
      rw [hc, hnone] at hd
      cases hd
    rw [signAndDigits, if_neg hminus, if_neg hplus]

/-- The sign and the digits make up the numeral. -/
theorem signAndDigits_cases (s : JString) :
    s = (signAndDigits s).2 ∧ (signAndDigits s).1 = false ∨
    s = jchar '+' :: (signAndDigits s).2 ∧ (signAndDigits s).1 = false ∨
    s = jchar '-' :: (signAndDigits s).2 ∧ (signAndDigits s).1 = true := by
  cases s with
  | nil => exact .inl ⟨rfl, rfl⟩
  | cons c s =>
    by_cases hminus : c = jchar '-'
    · rw [signAndDigits, if_pos hminus]
      exact .inr (.inr ⟨by rw [hminus], rfl⟩)
    · by_cases hplus : c = jchar '+'
      · rw [signAndDigits, if_neg hminus, if_pos hplus]
        exact .inr (.inl ⟨by rw [hplus], rfl⟩)
      · rw [signAndDigits, if_neg hminus, if_neg hplus]
        exact .inl ⟨rfl, rfl⟩

/-- **What `parseInt` accepts**. -/
theorem parseInt_isSome_iff (s : JString) : (parseInt s).isSome ↔ IsIntNumeral s := by
  constructor
  · intro h
    obtain ⟨r, hr⟩ := Option.isSome_iff_exists.mp h
    unfold parseInt at hr
    by_cases hempty : (signAndDigits s).2 = []
    · simp only [hempty, if_true, reduceCtorEq] at hr
    · simp only [hempty, if_false] at hr
      obtain ⟨magnitude, hvalue, hint⟩ := Option.bind_eq_some_iff.mp hr
      refine ⟨_, _, magnitude, signAndDigits_cases s, hempty, hvalue, ?_⟩
      exact (toInt?_isSome_iff _ _).mp (Option.isSome_iff_exists.mpr ⟨r, hint⟩)
  · rintro ⟨negative, digits, magnitude, hshape, hne, hvalue, hrange⟩
    have hsign : signAndDigits s = (negative, digits) := by
      rcases hshape with ⟨rfl, rfl⟩ | ⟨rfl, rfl⟩ | ⟨rfl, rfl⟩
      · exact signAndDigits_of_digitsValue hvalue
      · rw [signAndDigits, if_neg (by decide), if_pos rfl]
      · rw [signAndDigits, if_pos rfl]
    unfold parseInt
    simp only [hsign, if_neg hne, hvalue, Option.bind_some]
    exact (toInt?_isSome_iff negative magnitude).mpr hrange

/-! ### Printing -/

theorem decimal_append (s : JString) (c : JChar) :
    decimal (s ++ [c]) = decimal s * 10 + (c.toNat - 0x30) := by
  rw [decimal, List.foldl_append]
  rfl

theorem jchar_digitChar {d : Nat} (hd : d < 10) : (jchar d.digitChar).toNat = 0x30 + d := by
  revert d
  decide

/-- A numeral is its last digit, with the numeral of the rest in front. -/
theorem numeral_eq (n : Nat) :
    numeral n = (if n < 10 then [] else numeral (n / 10)) ++ [jchar (n % 10).digitChar] := by
  unfold numeral text
  rw [Nat.toDigits_eq_if (by decide)]
  split
  · rename_i h
    rw [Nat.mod_eq_of_lt h]
    rfl
  · rw [List.map_append, List.map_cons, List.map_nil]

theorem numeral_digits (n : Nat) : ∀ c ∈ numeral n, IsDigit c := by
  induction n using Nat.strongRecOn with
  | ind n ih =>
    have hlast : IsDigit (jchar (n % 10).digitChar) := by
      have hd := jchar_digitChar (Nat.mod_lt n (show 10 > 0 by decide))
      constructor <;> omega
    rw [numeral_eq]
    intro c hc
    rcases List.mem_append.mp hc with hfront | hback
    · split at hfront
      · exact absurd hfront List.not_mem_nil
      · exact ih (n / 10) (by omega) c hfront
    · rw [List.mem_singleton.mp hback]
      exact hlast

/-- Reading a printed number gives it back. -/
theorem decimal_numeral (n : Nat) : decimal (numeral n) = n := by
  induction n using Nat.strongRecOn with
  | ind n ih =>
    have hd := jchar_digitChar (Nat.mod_lt n (show 10 > 0 by decide))
    rw [numeral_eq, decimal_append, hd]
    split
    · rename_i h
      rw [decimal, List.foldl_nil]
      omega
    · rw [ih (n / 10) (by omega)]
      omega

/-- Decimal digits without a leading zero, or the numeral `0`. -/
structure IsPlainNumeral (s : JString) : Prop where
  nonempty : s ≠ []
  digits : ∀ c ∈ s, IsDigit c
  noLeadingZero : s.head? = some (jchar '0') → s = [jchar '0']

theorem IsDigit.eq_jchar {c : JChar} (h : IsDigit c) : jchar (c.toNat - 0x30).digitChar = c := by
  obtain ⟨hlo, hhi⟩ := h
  apply BitVec.eq_of_toNat_eq
  rw [jchar_digitChar (by omega)]
  omega

/-- Without leading zeros, more than one digit make a positive number. -/
theorem decimal_pos {c : JChar} (hc : IsDigit c) (hzero : c ≠ jchar '0') (s : JString) :
    0 < decimal (c :: s) := by
  have hpos : 0 < decimal [c] := by
    obtain ⟨hlo, -⟩ := hc
    have hne : c.toNat ≠ 0x30 := fun h => hzero (BitVec.eq_of_toNat_eq h)
    show 0 < 0 * 10 + (c.toNat - 0x30)
    omega
  induction s using List.reverseRecOn with
  | nil => exact hpos
  | append_singleton s d ih =>
    rw [← List.cons_append, decimal_append]
    omega

/-- **Printing a number that was read** gives its text back. -/
theorem numeral_decimal {s : JString} (h : IsPlainNumeral s) : numeral (decimal s) = s := by
  induction s using List.reverseRecOn with
  | nil => exact absurd rfl h.nonempty
  | append_singleton s c ih =>
    have hc := h.digits c (by simp)
    have hdigit := hc.eq_jchar
    obtain ⟨hlo, hhi⟩ := hc
    rw [numeral_eq, decimal_append]
    have hmod : (decimal s * 10 + (c.toNat - 0x30)) % 10 = c.toNat - 0x30 := by omega
    have hdiv : (decimal s * 10 + (c.toNat - 0x30)) / 10 = decimal s := by omega
    rw [hmod, hdiv, hdigit]
    congr 1
    cases s with
    | nil =>
      rw [if_pos (by simp only [decimal, List.foldl_nil]; omega)]
    | cons d s =>
      -- the first digit is not a zero, so there is something in front
      have hfirst : d ≠ jchar '0' := by
        rintro rfl
        have hone := congrArg List.length (h.noLeadingZero rfl)
        simp at hone
      have hpos := decimal_pos (h.digits d (by simp)) hfirst s
      rw [if_neg (by omega)]
      apply ih
      refine ⟨List.cons_ne_nil _ _, fun x hx => h.digits x (List.mem_append_left _ hx), ?_⟩
      intro hhead
      exact absurd (Option.some.inj hhead) hfirst

theorem numeral_ne_nil (n : Nat) : numeral n ≠ [] := by
  rw [numeral_eq]
  exact List.append_ne_nil_of_right_ne_nil _ (List.cons_ne_nil _ _)

/-- Printing writes no leading zero. -/
theorem numeral_isPlain (n : Nat) : IsPlainNumeral (numeral n) := by
  refine ⟨numeral_ne_nil n, numeral_digits n, ?_⟩
  induction n using Nat.strongRecOn with
  | ind n ih =>
    intro hhead
    by_cases hn : n < 10
    · rw [numeral_eq, if_pos hn, List.nil_append] at hhead ⊢
      rw [Option.some.inj hhead]
    · -- the numeral in front would be the text of 0
      rw [numeral_eq, if_neg hn, List.head?_append_of_ne_nil _ (numeral_ne_nil _)] at hhead
      have hfront := congrArg decimal (ih (n / 10) (by omega) hhead)
      rw [decimal_numeral] at hfront
      have hzero : decimal [jchar '0'] = 0 := by decide
      omega

theorem longToString_ofNat {n : Nat} (hn : n < 2 ^ 63) :
    longToString (BitVec.ofNat 64 n) = numeral n := by
  have hint : (BitVec.ofNat 64 n).toInt = n := by
    rw [BitVec.toInt_eq_toNat_of_lt (by rw [BitVec.toNat_ofNat]; omega), BitVec.toNat_ofNat]
    omega
  unfold longToString
  rw [hint, if_neg (by omega), Int.natAbs_natCast]

/-! ### Splitting -/

/-- Splitting a joined list gives the list back when no piece has a separator
    and the last piece is not empty. -/
theorem split_intercalate {sep : JChar} {pieces : List JString} {final : JString}
    (hsep : ∀ piece ∈ pieces ++ [final], sep ∉ piece) (hpieces : pieces ≠ [])
    (hfinal : final ≠ []) :
    split ([sep].intercalate (pieces ++ [final])) sep = pieces ++ [final] := by
  have hsplit : ([sep].intercalate (pieces ++ [final])).splitOn sep = pieces ++ [final] :=
    List.splitOn_intercalate sep hsep (by simp)
  have hmem : sep ∈ [sep].intercalate (pieces ++ [final]) := by
    -- otherwise there would be one piece only
    by_contra hno
    have hone := List.splitOn_eq_singleton hno
    rw [hsplit] at hone
    have hlen := congrArg List.length hone
    have hpos := List.length_pos_iff.mpr hpieces
    rw [List.length_append, List.length_singleton, List.length_singleton] at hlen
    omega
  have hbeq : (final == []) = false := by simpa using hfinal
  unfold split
  rw [if_pos hmem, hsplit, List.reverse_append, List.reverse_singleton, List.singleton_append,
    List.dropWhile_cons_of_neg (by simpa using hfinal)]
  simp

end PacketPro
