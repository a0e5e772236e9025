import PacketPro.Jvm.Text
import PacketPro.Jvm.Verdict
import PacketPro.Framework.Binary64
import Mathlib.Data.Finset.Basic

/-! # `Utils.IpToInt` and `FirewallProcessor.readBlacklist`

    The blacklist is a set of numbers, one for each line of `blacklist.txt`.
    `IpToInt` weighs the parts of a line with `Math.pow(256, 3 - i)` and adds
    them up in a `long`, through `double` arithmetic; nothing checks how many
    parts there are or that a part is an octet.

    On a dotted quad the result is the 32-bit number of the address, first
    octet highest (`IpToInt_of_denotes`).
-/

open ByteMem

namespace PacketPro

/-! ## Section 1: Definitions -/

/-- A `double` cast to `long`: truncated and kept in range. -/
def toLong (x : ℚ) : JLong := BitVec.ofInt 64 (max (-2 ^ 63) (min (2 ^ 63 - 1) (Binary64.trunc x)))

/-- `Math.pow(256, power)`. -/
def pow256 (power : Int) : ℚ := Binary64.round ((256 : ℚ) ^ power)

/-- `n += part % 256 * Math.pow(256, power)`, evaluated in `double`. -/
def addPart (n : JLong) (part : JInt) (power : Int) : JLong :=
  let weighed := Binary64.round (((part.toInt.tmod 256 : Int) : ℚ) * pow256 power)
  toLong (Binary64.round (Binary64.round (n.toInt : ℚ) + weighed))

/-- The loop of `IpToInt` from part `i` on. -/
def ipLoop : Nat → JLong → List JString → Option JLong
  | _, n, [] => some n
  | i, n, part :: parts => do
    let value ← parseInt part
    ipLoop (i + 1) (addPart n value (3 - i)) parts

/-- `none` is the exception that `parseInt` throws. -/
def IpToInt (value : JString) : Option JLong := ipLoop 0 0 (split value dot)

/-- The loop of `readBlacklist`. The exception of a bad line is not caught. -/
def readLines : List JString → Finset JLong → Option (Finset JLong)
  | [], blacklist => some blacklist
  | line :: lines, blacklist => do
    let entry ← IpToInt line
    readLines lines (insert entry blacklist)

/-- A missing file is reported and leaves the blacklist empty. -/
def readBlacklist (file : Option (List JString)) : Option (Finset JLong) :=
  match file with
  | none => some ∅
  | some lines => readLines lines ∅

/-! ## Section 2: Addresses -/

/-- An IPv4 address as its four octets, in the order they are written. -/
structure Quad where
  a : BitVec 8
  b : BitVec 8
  c : BitVec 8
  d : BitVec 8
  deriving DecidableEq, Repr

namespace Quad

/-- The address as a number, first octet highest. -/
def value (q : Quad) : Nat :=
  q.a.toNat * 2 ^ 24 + q.b.toNat * 2 ^ 16 + q.c.toNat * 2 ^ 8 + q.d.toNat

/-- The same octets in the opposite order. -/
def reverse (q : Quad) : Quad := ⟨q.d, q.c, q.b, q.a⟩

theorem value_lt (q : Quad) : q.value < 2 ^ 32 := by
  have ha := q.a.isLt
  have hb := q.b.isLt
  have hc := q.c.isLt
  have hd := q.d.isLt
  unfold value
  omega

theorem value_injective {q q' : Quad} (h : q.value = q'.value) : q = q' := by
  obtain ⟨a, b, c, d⟩ := q
  obtain ⟨a', b', c', d'⟩ := q'
  simp only [value] at h
  have hd : d.toNat = d'.toNat := by omega
  have hc : c.toNat = c'.toNat := by omega
  have hb : b.toNat = b'.toNat := by omega
  have ha : a.toNat = a'.toNat := by omega
  rw [BitVec.eq_of_toNat_eq ha, BitVec.eq_of_toNat_eq hb, BitVec.eq_of_toNat_eq hc,
    BitVec.eq_of_toNat_eq hd]

theorem ofNat_value_injective {q q' : Quad}
    (h : BitVec.ofNat 64 q.value = BitVec.ofNat 64 q'.value) : q = q' := by
  have htoNat := congrArg BitVec.toNat h
  have hlt := q.value_lt
  have hlt' := q'.value_lt
  rw [BitVec.toNat_ofNat, BitVec.toNat_ofNat] at htoNat
  exact value_injective (by omega)

end Quad

/-- The decimal text of an octet, leading zeros allowed. -/
structure IsOctet (s : JString) (v : BitVec 8) : Prop where
  nonempty : s ≠ []
  digits : ∀ c ∈ s, IsDigit c
  value : decimal s = v.toNat

/-- The line is the dotted quad `a.b.c.d`. -/
def Denotes (line : JString) (q : Quad) : Prop :=
  ∃ s₁ s₂ s₃ s₄ : JString, line = [dot].intercalate [s₁, s₂, s₃, s₄] ∧
    IsOctet s₁ q.a ∧ IsOctet s₂ q.b ∧ IsOctet s₃ q.c ∧ IsOctet s₄ q.d

/-- Some line of the file is the dotted quad `q`. -/
def Lists (lines : List JString) (q : Quad) : Prop := ∃ line ∈ lines, Denotes line q

/-! ## Section 3: The parser on dotted quads -/

theorem pow256_natCast {k : Nat} (hk : k ≤ 3) : pow256 k = ((256 ^ k : Int) : ℚ) := by
  have hsmall : |(256 : Int) ^ k| < 2 ^ 53 := by
    interval_cases k <;> norm_num
  have hexact := Binary64.round_intCast hsmall
  unfold pow256
  rw [zpow_natCast]
  push_cast at hexact ⊢
  exact hexact

theorem toLong_intCast {n : Int} (h : |n| < 2 ^ 53) : toLong (n : ℚ) = BitVec.ofInt 64 n := by
  have habs := abs_lt.mp h
  have hclamp : max (-2 ^ 63) (min (2 ^ 63 - 1) n) = n := by omega
  rw [toLong, Binary64.trunc_intCast, hclamp]

/-- Adding a weighed part is exact as long as all numbers stay small. -/
theorem addPart_exact {n : Int} (hn : |n| < 2 ^ 40) (part : JInt) {k : Nat} (hk : k ≤ 3) :
    addPart (BitVec.ofInt 64 n) part k =
      BitVec.ofInt 64 (n + part.toInt.tmod 256 * 256 ^ k) := by
  have hpow : (256 : Nat) ^ k ≤ 256 ^ 3 := Nat.pow_le_pow_right (by decide) hk
  have hbounds := abs_lt.mp hn
  have hint : (BitVec.ofInt 64 n).toInt = n := by
    rw [BitVec.toInt_ofInt]
    exact Int.bmod_eq_of_le (by omega) (by omega)
  have hpart : |part.toInt.tmod 256| ≤ 255 := by
    have hlo := Int.lt_tmod_of_pos part.toInt (b := 256) (by decide)
    have hhi := Int.tmod_lt_of_pos part.toInt (b := 256) (by decide)
    rw [abs_le]
    omega
  have hweighed : |part.toInt.tmod 256 * 256 ^ k| ≤ 255 * 256 ^ 3 := by
    rw [abs_mul]
    apply mul_le_mul hpart _ (abs_nonneg _) (by decide)
    rw [abs_of_nonneg (by positivity)]
    exact_mod_cast hpow
  have hsum : |n + part.toInt.tmod 256 * 256 ^ k| < 2 ^ 53 := by
    have := abs_le.mp hweighed
    rw [abs_lt]
    omega
  -- no rounding changes an integer below 2 ^ 53
  have hround : Binary64.round (((part.toInt.tmod 256 : Int) : ℚ) * ((256 ^ k : Int) : ℚ)) =
      ((part.toInt.tmod 256 * 256 ^ k : Int) : ℚ) := by
    rw [← Int.cast_mul]
    exact Binary64.round_intCast (by omega)
  unfold addPart
  simp only [hint, pow256_natCast hk, hround, Binary64.round_intCast (show |n| < 2 ^ 53 by omega)]
  rw [← Int.cast_add, Binary64.round_intCast hsum, toLong_intCast hsum]

/-- Adding a weighed octet. -/
theorem addPart_octet {n v k : Nat} (hn : n < 2 ^ 32) (hv : v < 256) (hk : k ≤ 3) :
    addPart (BitVec.ofNat 64 n) (BitVec.ofNat 32 v) k = BitVec.ofNat 64 (n + v * 256 ^ k) := by
  have hpart : (BitVec.ofNat 32 v).toInt.tmod 256 = v := by
    rw [UnsafeAccess.toInt_ofNat (by omega)]
    exact Int.tmod_eq_of_lt (by omega) (by omega)
  have h := addPart_exact (n := n) (by rw [abs_of_nonneg (by omega)]; omega)
    (BitVec.ofNat 32 v) hk
  rw [hpart, BitVec.ofInt_natCast] at h
  rw [h, ← BitVec.ofInt_natCast]
  push_cast
  rfl

theorem IsOctet.parseInt_eq {s : JString} {v : BitVec 8} (h : IsOctet s v) :
    parseInt s = some (BitVec.ofNat 32 v.toNat) := by
  have hv := v.isLt
  rw [parseInt_of_digits h.nonempty h.digits (by rw [h.value]; omega), h.value]

theorem IsOctet.no_dot {s : JString} {v : BitVec 8} (h : IsOctet s v) : dot ∉ s :=
  fun hmem => (h.digits dot hmem).ne_jchar (by decide) rfl

/-- One octet of the loop. -/
theorem ipLoop_octet {i n : Nat} {s : JString} {v : BitVec 8} (h : IsOctet s v) (hn : n < 2 ^ 32)
    (hi : i ≤ 3) (parts : List JString) :
    ipLoop i (BitVec.ofNat 64 n) (s :: parts) =
      ipLoop (i + 1) (BitVec.ofNat 64 (n + v.toNat * 256 ^ (3 - i))) parts := by
  have hpower : (3 : Int) - i = ((3 - i : Nat) : Int) := by omega
  rw [ipLoop, h.parseInt_eq, Option.bind_eq_bind, Option.bind_some, hpower,
    addPart_octet hn v.isLt (by omega)]

theorem split_octets {s₁ s₂ s₃ s₄ : JString} {q : Quad} (h₁ : IsOctet s₁ q.a)
    (h₂ : IsOctet s₂ q.b) (h₃ : IsOctet s₃ q.c) (h₄ : IsOctet s₄ q.d) :
    split ([dot].intercalate [s₁, s₂, s₃, s₄]) dot = [s₁, s₂, s₃, s₄] := by
  have hdots : ∀ piece ∈ [s₁, s₂, s₃] ++ [s₄], dot ∉ piece := by
    intro piece hpiece
    simp only [List.cons_append, List.nil_append, List.mem_cons, List.not_mem_nil,
      or_false] at hpiece
    rcases hpiece with rfl | rfl | rfl | rfl
    · exact h₁.no_dot
    · exact h₂.no_dot
    · exact h₃.no_dot
    · exact h₄.no_dot
  exact split_intercalate hdots (by simp) h₄.nonempty

/-- **Dotted quads**: `IpToInt` returns the number of the address. -/
theorem IpToInt_of_denotes {line : JString} {q : Quad} (h : Denotes line q) :
    IpToInt line = some (BitVec.ofNat 64 q.value) := by
  obtain ⟨s₁, s₂, s₃, s₄, rfl, h₁, h₂, h₃, h₄⟩ := h
  have hsplit := split_octets h₁ h₂ h₃ h₄
  have ha := q.a.isLt
  have hb := q.b.isLt
  have hc := q.c.isLt
  -- the loop weighs the first octet most
  have hvalue : 0 + q.a.toNat * 256 ^ (3 - 0) + q.b.toNat * 256 ^ (3 - 1) +
      q.c.toNat * 256 ^ (3 - 2) + q.d.toNat * 256 ^ (3 - 3) = q.value := by
    unfold Quad.value
    omega
  have hstart : (0 : JLong) = BitVec.ofNat 64 0 := rfl
  unfold IpToInt
  rw [hsplit, hstart, ipLoop_octet h₁ (by omega) (by omega), ipLoop_octet h₂ (by omega) (by omega),
    ipLoop_octet h₃ (by omega) (by omega), ipLoop_octet h₄ (by omega) (by omega), hvalue, ipLoop]

/-- A line is the text of one address only. -/
theorem Denotes.unique {line : JString} {q q' : Quad} (h : Denotes line q)
    (h' : Denotes line q') : q = q' := by
  have hvalue := (IpToInt_of_denotes h).symm.trans (IpToInt_of_denotes h')
  rw [Option.some.injEq] at hvalue
  exact Quad.ofNat_value_injective hvalue

theorem lists_singleton {line : JString} {q : Quad} (h : Denotes line q) (q' : Quad) :
    Lists [line] q' ↔ q' = q := by
  constructor
  · rintro ⟨l, hl, hq'⟩
    rw [List.mem_singleton.mp hl] at hq'
    exact hq'.unique h
  · rintro rfl
    exact ⟨line, List.mem_singleton_self _, h⟩

/-! ## Section 4: The file -/

/-- The set after the loop: what was there, and the number of each line. -/
theorem readLines_mem {lines : List JString} {blacklist result : Finset JLong}
    (h : readLines lines blacklist = some result) (x : JLong) :
    x ∈ result ↔ x ∈ blacklist ∨ ∃ line ∈ lines, IpToInt line = some x := by
  induction lines generalizing blacklist with
  | nil =>
    simp only [readLines, Option.some.injEq] at h
    simp [h]
  | cons line lines ih =>
    obtain ⟨entry, hentry, hrest⟩ := Option.bind_eq_some_iff.mp h
    rw [ih hrest]
    simp only [Finset.mem_insert, List.mem_cons, exists_eq_or_imp, hentry, Option.some.injEq]
    constructor
    · rintro ((rfl | hx) | hx)
      · exact Or.inr (Or.inl rfl)
      · exact Or.inl hx
      · exact Or.inr (Or.inr hx)
    · rintro (hx | rfl | hx)
      · exact Or.inl (Or.inr hx)
      · exact Or.inl (Or.inl rfl)
      · exact Or.inr hx

/-- A file of dotted quads is read without an exception. -/
theorem readLines_isSome {lines : List JString} (h : ∀ line ∈ lines, ∃ q, Denotes line q)
    (blacklist : Finset JLong) : ∃ result, readLines lines blacklist = some result := by
  induction lines generalizing blacklist with
  | nil => exact ⟨blacklist, rfl⟩
  | cons line lines ih =>
    obtain ⟨q, hq⟩ := h line (List.mem_cons_self ..)
    obtain ⟨result, hresult⟩ :=
      ih (fun l hl => h l (List.mem_cons_of_mem _ hl)) (insert (BitVec.ofNat 64 q.value) blacklist)
    refine ⟨result, ?_⟩
    rw [readLines, IpToInt_of_denotes hq]
    exact hresult

/-- **The blacklist of a file of dotted quads**: an address is in it exactly
    when some line lists it. -/
theorem readBlacklist_mem_iff {lines : List JString} {blacklist : Finset JLong}
    (hquads : ∀ line ∈ lines, ∃ q, Denotes line q)
    (hread : readBlacklist (some lines) = some blacklist) (q : Quad) :
    BitVec.ofNat 64 q.value ∈ blacklist ↔ Lists lines q := by
  rw [readLines_mem hread]
  constructor
  · rintro (hempty | ⟨line, hline, hvalue⟩)
    · exact absurd hempty (Finset.notMem_empty _)
    · obtain ⟨q', hq'⟩ := hquads line hline
      rw [IpToInt_of_denotes hq', Option.some.injEq] at hvalue
      have hq : q' = q := Quad.ofNat_value_injective hvalue
      exact ⟨line, hline, hq ▸ hq'⟩
  · rintro ⟨line, hline, hq⟩
    exact Or.inr ⟨line, hline, IpToInt_of_denotes hq⟩

/-! ## Section 5: Addresses in packets -/

/-- The four bytes from `a` on, in memory order. -/
def quadAt (m : Memory 64) (a : Addr) : Quad :=
  ⟨m a, m (cell a 1), m (cell a 2), m (cell a 3)⟩

/-- The source address of a packet, in network order. -/
def Packet.srcQuad (p : Packet) (m : Memory 64) : Quad :=
  quadAt m (cell p.packet_pointer SRC_ADDR_OFFSET)

/-- A little-endian load reads the octets of an address back to front. -/
theorem loadLE_eq_reverse_value (m : Memory 64) (a : Addr) :
    loadLE m a 4 = (quadAt m a).reverse.value := by
  have h := loadLE_cell_succ m a
  rw [← cell_zero a, h, h, h, h, cell_zero]
  simp only [loadLE, Quad.reverse, Quad.value, quadAt, Nat.zero_add, Nat.reduceAdd]
  omega

/-- `getSrcAddr` returns the number of the address read back to front. -/
theorem Packet.srcAddr_eq (p : Packet) (m : Memory 64) :
    p.srcAddr m = BitVec.ofNat 64 (p.srcQuad m).reverse.value := by
  rw [Packet.srcAddr, loadLE_eq_reverse_value]
  rfl

/-- **The filter in terms of the file**: an IPv4 packet passes exactly when no
    line lists its source address read back to front. -/
theorem Packet.passes_iff_not_lists_reverse {lines : List JString} {blacklist : Finset JLong}
    (hquads : ∀ line ∈ lines, ∃ q, Denotes line q)
    (hread : readBlacklist (some lines) = some blacklist) {p : Packet} {m : Memory 64}
    (hversion : p.versionNibble m = 4) :
    p.passes blacklist m = true ↔ ¬ Lists lines (p.srcQuad m).reverse := by
  rw [Packet.passes, decide_eq_true_iff, p.srcAddr_eq, readBlacklist_mem_iff hquads hread]
  constructor
  · exact And.right
  · exact fun h => ⟨hversion, h⟩

end PacketPro
