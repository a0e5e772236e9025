import Mathlib.Data.Nat.Basic
import Mathlib.Data.List.Basic
import Mathlib.Tactic.Ring
import Mathlib.Tactic.IntervalCases

/-! # Byte-Addressed Memory

    A flat memory of `2 ^ w` bytes with wrap-around addresses, together with
    the three notions that reasoning about buffers needs:

    * **Regions**: a base address and a size. An address belongs to a region
      when its wrapped distance from the base is below the size, so that no
      side condition about overflow is needed to state membership.
    * **Little-endian words**: `loadLE` / `storeLE` for any number of bytes,
      and arrays of 64-bit words (`wordsAt`).
    * **Access log**: a `Heap` is a memory that records every load and store
      made through it, so that "no access falls outside these regions" is a
      property of a run rather than of its proof.
-/

namespace ByteMem

variable {w : Nat}

/-! ## Section 1: Regions -/

/-- A memory of `2 ^ w` bytes. -/
abbrev Memory (w : Nat) : Type := BitVec w → BitVec 8

/-- `size` bytes from `base` on, wrapping at the top of the address space. -/
structure Region (w : Nat) where
  base : BitVec w
  size : Nat
  deriving DecidableEq, Repr

/-- The part of a region that starts `off` bytes in and is `n` bytes long. -/
def Region.slice (r : Region w) (off n : Nat) : Region w :=
  ⟨r.base + BitVec.ofNat w off, n⟩

instance : Membership (BitVec w) (Region w) where
  mem r a := (a - r.base).toNat < r.size

instance (a : BitVec w) (r : Region w) : Decidable (a ∈ r) :=
  inferInstanceAs (Decidable ((a - r.base).toNat < r.size))

instance : HasSubset (Region w) where
  Subset r s := ∀ a, a ∈ r → a ∈ s

/-- No address belongs to both regions. -/
def Region.Disjoint (r s : Region w) : Prop := ∀ a, a ∈ r → a ∉ s

theorem Region.mem_def {a : BitVec w} {r : Region w} :
    a ∈ r ↔ (a - r.base).toNat < r.size := Iff.rfl

theorem Region.Disjoint.symm {r s : Region w} (h : r.Disjoint s) : s.Disjoint r :=
  fun a hs hr => h a hr hs

/-- Distance from the base of an address given by its offset. -/
theorem toNat_add_ofNat_sub (a : BitVec w) {i : Nat} (hi : i < 2 ^ w) :
    (a + BitVec.ofNat w i - a).toNat = i := by
  have h : a + BitVec.ofNat w i - a = BitVec.ofNat w i := by
    rw [BitVec.add_comm, BitVec.add_sub_cancel]
  rw [h, BitVec.toNat_ofNat, Nat.mod_eq_of_lt hi]

/-- Every address is its base plus its distance from it. -/
theorem eq_add_ofNat_distance (a b : BitVec w) :
    b = a + BitVec.ofNat w (b - a).toNat := by
  rw [BitVec.ofNat_toNat, BitVec.setWidth_eq, BitVec.add_comm, BitVec.sub_add_cancel]

theorem Region.mem_of_offset {r : Region w} {i : Nat} (hi : i < r.size)
    (hw : r.size ≤ 2 ^ w) : r.base + BitVec.ofNat w i ∈ r := by
  rw [Region.mem_def, toNat_add_ofNat_sub r.base (by omega)]
  exact hi

/-- Membership in offset form: the address is the base plus a small offset. -/
theorem Region.exists_offset {r : Region w} {a : BitVec w} (h : a ∈ r) :
    ∃ i, i < r.size ∧ a = r.base + BitVec.ofNat w i :=
  ⟨(a - r.base).toNat, h, eq_add_ofNat_distance r.base a⟩

/-- Two offsets from one base add up. -/
theorem add_ofNat_add_ofNat (a : BitVec w) (i j : Nat) :
    a + BitVec.ofNat w i + BitVec.ofNat w j = a + BitVec.ofNat w (i + j) := by
  rw [BitVec.add_assoc, BitVec.ofNat_add]

/-- Two offsets of one base are different addresses when the offsets differ. -/
theorem add_ofNat_inj (a : BitVec w) {i j : Nat} (hi : i < 2 ^ w) (hj : j < 2 ^ w)
    (h : a + BitVec.ofNat w i = a + BitVec.ofNat w j) : i = j := by
  have hi' := toNat_add_ofNat_sub a hi
  have hj' := toNat_add_ofNat_sub a hj
  rw [h, hj'] at hi'
  exact hi'.symm

/-- The first bytes of a region. -/
theorem Region.prefix_subset (a : BitVec w) {k n : Nat} (h : k ≤ n) :
    (⟨a, k⟩ : Region w) ⊆ ⟨a, n⟩ :=
  fun _ hb => Nat.lt_of_lt_of_le hb h

theorem Region.slice_subset (r : Region w) (off n : Nat) (h : off + n ≤ r.size)
    (hw : r.size ≤ 2 ^ w) : r.slice off n ⊆ r := by
  intro a ha
  obtain ⟨i, hi, rfl⟩ := Region.exists_offset ha
  have hi' : i < n := hi
  simp only [Region.slice, add_ofNat_add_ofNat]
  exact Region.mem_of_offset (by omega) hw

/-- Slices of one region that do not overlap as offset intervals are disjoint. -/
theorem Region.slice_disjoint (r : Region w) (off n off' n' : Nat)
    (h : off + n ≤ off' ∨ off' + n' ≤ off)
    (hw : off + n ≤ 2 ^ w) (hw' : off' + n' ≤ 2 ^ w) :
    (r.slice off n).Disjoint (r.slice off' n') := by
  intro a ha ha'
  obtain ⟨i, hi, hai⟩ := Region.exists_offset ha
  obtain ⟨j, hj, haj⟩ := Region.exists_offset ha'
  have hi' : i < n := hi
  have hj' : j < n' := hj
  simp only [Region.slice, add_ofNat_add_ofNat] at hai haj
  have hij := add_ofNat_inj r.base (by omega) (by omega) (hai.symm.trans haj)
  omega

/-- A region that ends before another one starts is disjoint from it. -/
theorem Region.disjoint_of_le {r s : Region w} (h : r.base.toNat + r.size ≤ s.base.toNat)
    (hs : s.base.toNat + s.size ≤ 2 ^ w) : r.Disjoint s := by
  intro a ha ha'
  obtain ⟨i, hi, rfl⟩ := Region.exists_offset ha
  obtain ⟨j, hj, heq⟩ := Region.exists_offset ha'
  have htoNat := congrArg BitVec.toNat heq
  have hlt := s.base.isLt
  simp only [BitVec.toNat_add, BitVec.toNat_ofNat, Nat.add_mod_mod] at htoNat
  rw [Nat.mod_eq_of_lt (by omega), Nat.mod_eq_of_lt (by omega)] at htoNat
  omega

/-! ## Section 2: Little-endian words -/

/-- The `n`-byte little-endian number at `a`. -/
def loadLE (m : Memory w) (a : BitVec w) : Nat → Nat
  | 0 => 0
  | n + 1 => (m a).toNat + 256 * loadLE m (a + 1) n

/-- The memory after the low `n` bytes of `v` are stored at `a`, least
    significant byte first. -/
def storeLE (m : Memory w) (a : BitVec w) (n v : Nat) : Memory w :=
  fun b => if (b - a).toNat < n then BitVec.ofNat 8 (v / 256 ^ (b - a).toNat) else m b

@[simp] theorem loadLE_zero (m : Memory w) (a : BitVec w) : loadLE m a 0 = 0 := rfl

@[simp] theorem storeLE_zero (m : Memory w) (a : BitVec w) (v : Nat) : storeLE m a 0 v = m := by
  funext b
  simp [storeLE]

theorem storeLE_of_not_mem (m : Memory w) (a : BitVec w) (n v : Nat) {b : BitVec w}
    (h : b ∉ (⟨a, n⟩ : Region w)) : storeLE m a n v b = m b := by
  have h' : ¬ (b - a).toNat < n := h
  unfold storeLE
  rw [if_neg h']

theorem loadLE_lt (m : Memory w) (a : BitVec w) (n : Nat) : loadLE m a n < 256 ^ n := by
  induction n generalizing a with
  | zero => simp [loadLE]
  | succ n ih =>
    have hb : (m a).toNat < 256 := (m a).isLt
    have := ih (a + 1)
    rw [loadLE, Nat.pow_succ]
    omega

/-- A load only depends on the bytes of its region. -/
theorem loadLE_congr {m m' : Memory w} {a : BitVec w} {n : Nat} (hn : n ≤ 2 ^ w)
    (h : ∀ b, b ∈ (⟨a, n⟩ : Region w) → m b = m' b) : loadLE m a n = loadLE m' a n := by
  induction n generalizing a with
  | zero => rfl
  | succ n ih =>
    have hhead : m a = m' a := by
      apply h
      simpa using Region.mem_of_offset (r := (⟨a, n + 1⟩ : Region w)) (i := 0) (by simp) hn
    have htail : loadLE m (a + 1) n = loadLE m' (a + 1) n := by
      apply ih (by omega)
      intro b hb
      apply h b
      have hsub := Region.slice_subset (⟨a, n + 1⟩ : Region w) 1 n (by simp; omega) hn
      exact hsub b (by simpa [Region.slice] using hb)
    rw [loadLE, loadLE, hhead, htail]

/-- Reading back part of a stored word gives the matching digits. -/
theorem loadLE_storeLE_slice (m : Memory w) (a : BitVec w) (k v : Nat) (hk : k ≤ 2 ^ w)
    (n i : Nat) (hi : i + n ≤ k) :
    loadLE (storeLE m a k v) (a + BitVec.ofNat w i) n = v / 256 ^ i % 256 ^ n := by
  induction n generalizing i with
  | zero => simp [loadLE, Nat.mod_one]
  | succ n ih =>
    have hbyte : storeLE m a k v (a + BitVec.ofNat w i) = BitVec.ofNat 8 (v / 256 ^ i) := by
      have hd := toNat_add_ofNat_sub a (i := i) (by omega)
      unfold storeLE
      rw [hd, if_pos (by omega)]
    have hnext : a + BitVec.ofNat w i + 1 = a + BitVec.ofNat w (i + 1) :=
      add_ofNat_add_ofNat a i 1
    -- the lowest byte, and what is above it
    have hdigit : v / 256 ^ i % 256 ^ (n + 1) =
        v / 256 ^ i % 256 + 256 * (v / 256 ^ (i + 1) % 256 ^ n) := by
      rw [Nat.pow_succ', Nat.mod_mul, Nat.div_div_eq_div_mul, ← Nat.pow_succ]
    rw [loadLE, hbyte, hnext, ih (i + 1) (by omega), BitVec.toNat_ofNat, hdigit]

theorem loadLE_storeLE_self (m : Memory w) (a : BitVec w) (n v : Nat) (hn : n ≤ 2 ^ w) :
    loadLE (storeLE m a n v) a n = v % 256 ^ n := by
  have h := loadLE_storeLE_slice m a n v hn n 0 (by omega)
  simpa using h

/-- Storing a word is storing its tail one byte further on and then its lowest
    byte, the order in which byte-wise encoders write. -/
theorem storeLE_succ (m : Memory w) (a : BitVec w) (n v : Nat) :
    storeLE m a (n + 1) v = storeLE (storeLE m (a + 1) n (v / 256)) a 1 v := by
  funext b
  -- every address is some distance from the base
  obtain ⟨d, hd, rfl⟩ : ∃ d, d < 2 ^ w ∧ b = a + BitVec.ofNat w d :=
    ⟨(b - a).toNat, (b - a).isLt, eq_add_ofNat_distance a b⟩
  have hdist := toNat_add_ofNat_sub a hd
  unfold storeLE
  simp only [hdist]
  cases d with
  | zero => simp
  | succ d =>
    have hnext : a + BitVec.ofNat w (d + 1) = a + 1 + BitVec.ofNat w d := by
      rw [Nat.add_comm, ← add_ofNat_add_ofNat]
      rfl
    have hdist' : (a + BitVec.ofNat w (d + 1) - (a + 1)).toNat = d := by
      rw [hnext, toNat_add_ofNat_sub (a + 1) (by omega)]
    have hdiv : v / 256 / 256 ^ d = v / 256 ^ (d + 1) := by
      rw [Nat.div_div_eq_div_mul, ← Nat.pow_succ']
    simp only [hdist', hdiv, Nat.add_lt_add_iff_right, if_false, Nat.lt_one_iff,
      Nat.add_eq_zero_iff, Nat.one_ne_zero, and_false]

/-- Only the bytes that are stored matter. -/
theorem storeLE_congr_value (m : Memory w) (a : BitVec w) {n v v' : Nat}
    (h : v % 256 ^ n = v' % 256 ^ n) : storeLE m a n v = storeLE m a n v' := by
  funext b
  unfold storeLE
  by_cases hb : (b - a).toNat < n
  · rw [if_pos hb, if_pos hb]
    -- a byte below the `n`-th does not depend on what is above
    have hdigit : ∀ x : Nat, x / 256 ^ (b - a).toNat % 256 =
        x % 256 ^ n / 256 ^ (b - a).toNat % 256 := by
      intro x
      have hsplit : n = (b - a).toNat + (n - (b - a).toNat - 1 + 1) := by omega
      rw [hsplit, Nat.pow_add, Nat.mod_mul_right_div_self, Nat.pow_succ, Nat.mod_mod_of_dvd]
      exact Nat.dvd_mul_left _ _
    apply BitVec.eq_of_toNat_eq
    simp only [BitVec.toNat_ofNat]
    exact (hdigit v).trans ((congrArg (fun x => x / 256 ^ (b - a).toNat % 256) h).trans
      (hdigit v').symm)
  · rw [if_neg hb, if_neg hb]

/-! ## Section 3: Arrays of 64-bit words -/

/-- The 64-bit word at `a`. -/
def word64 (m : Memory w) (a : BitVec w) : BitVec 64 := BitVec.ofNat 64 (loadLE m a 8)

/-- The `n` consecutive 64-bit words from `a` on. -/
def wordsAt (m : Memory w) (a : BitVec w) (n : Nat) : List (BitVec 64) :=
  (List.range n).map fun i => word64 m (a + BitVec.ofNat w (8 * i))

@[simp] theorem wordsAt_length (m : Memory w) (a : BitVec w) (n : Nat) :
    (wordsAt m a n).length = n := by
  simp [wordsAt]

@[simp] theorem wordsAt_zero (m : Memory w) (a : BitVec w) : wordsAt m a 0 = [] := rfl

theorem wordsAt_succ (m : Memory w) (a : BitVec w) (n : Nat) :
    wordsAt m a (n + 1) = wordsAt m a n ++ [word64 m (a + BitVec.ofNat w (8 * n))] := by
  simp [wordsAt, List.range_succ]

theorem wordsAt_succ_eq_cons (m : Memory w) (a : BitVec w) (n : Nat) :
    wordsAt m a (n + 1) = word64 m a :: wordsAt m (a + BitVec.ofNat w 8) n := by
  unfold wordsAt
  rw [List.range_succ_eq_map, List.map_cons, List.map_map]
  have htail : (List.range n).map ((fun i => word64 m (a + BitVec.ofNat w (8 * i))) ∘ Nat.succ) =
      (List.range n).map (fun i => word64 m (a + BitVec.ofNat w 8 + BitVec.ofNat w (8 * i))) := by
    apply List.map_congr_left
    intro i _
    rw [add_ofNat_add_ofNat, Function.comp_apply, Nat.mul_succ, Nat.add_comm]
  rw [htail]
  simp

theorem word64_storeLE_self (m : Memory w) (a : BitVec w) (v : BitVec 64) (hw : 8 ≤ 2 ^ w) :
    word64 (storeLE m a 8 v.toNat) a = v := by
  have hv : v.toNat < 256 ^ 8 := v.isLt
  rw [word64, loadLE_storeLE_self m a 8 _ hw, Nat.mod_eq_of_lt hv, BitVec.ofNat_toNat,
    BitVec.setWidth_eq]

theorem word64_congr {m m' : Memory w} {a : BitVec w} (hw : 8 ≤ 2 ^ w)
    (h : ∀ b, b ∈ (⟨a, 8⟩ : Region w) → m b = m' b) : word64 m a = word64 m' a := by
  rw [word64, word64, loadLE_congr hw h]

/-- An array only depends on the bytes of its region. -/
theorem wordsAt_congr {m m' : Memory w} {a : BitVec w} {n : Nat} (hn : 8 * n ≤ 2 ^ w)
    (h : ∀ b, b ∈ (⟨a, 8 * n⟩ : Region w) → m b = m' b) :
    wordsAt m a n = wordsAt m' a n := by
  apply List.map_congr_left
  intro i hi
  have hi' : i < n := List.mem_range.mp hi
  apply word64_congr (by omega)
  intro b hb
  have hsub := Region.slice_subset (⟨a, 8 * n⟩ : Region w) (8 * i) 8 (by simp; omega) hn
  exact h b (hsub b hb)

/-- Storing a word right behind an array extends it and leaves the rest. -/
theorem wordsAt_storeLE_end (m : Memory w) (a : BitVec w) (n : Nat) (v : BitVec 64)
    (hn : 8 * (n + 1) ≤ 2 ^ w) :
    wordsAt (storeLE m (a + BitVec.ofNat w (8 * n)) 8 v.toNat) a (n + 1) =
      wordsAt m a n ++ [v] := by
  have hdisj := Region.slice_disjoint (⟨a, 8 * (n + 1)⟩ : Region w) 0 (8 * n) (8 * n) 8
    (by omega) (by omega) (by omega)
  have hkept : wordsAt (storeLE m (a + BitVec.ofNat w (8 * n)) 8 v.toNat) a n =
      wordsAt m a n := by
    apply wordsAt_congr (by omega)
    intro b hb
    have hb' : b ∈ (⟨a, 8 * (n + 1)⟩ : Region w).slice 0 (8 * n) := by
      simp only [Region.slice, BitVec.add_zero]
      exact hb
    exact storeLE_of_not_mem _ _ _ _ (hdisj b hb')
  rw [wordsAt_succ, word64_storeLE_self _ _ _ (by omega), hkept]

/-! ## Section 4: Heaps with an access log -/

inductive AccessKind where
  | load
  | store
  deriving DecidableEq, Repr

/-- One memory access: what was done, and to which bytes. -/
structure Access (w : Nat) where
  kind : AccessKind
  region : Region w
  deriving DecidableEq, Repr

/-- A memory together with the accesses made so far, newest first. -/
structure Heap (w : Nat) where
  mem : Memory w
  log : List (Access w)

/-- Store the low `n` bytes of `v` at `a`. -/
def Heap.store (h : Heap w) (a : BitVec w) (n v : Nat) : Heap w :=
  { mem := storeLE h.mem a n v, log := ⟨.store, ⟨a, n⟩⟩ :: h.log }

/-- Record a load of `n` bytes at `a`. -/
def Heap.touch (h : Heap w) (a : BitVec w) (n : Nat) : Heap w :=
  { h with log := ⟨.load, ⟨a, n⟩⟩ :: h.log }

@[simp] theorem Heap.store_mem (h : Heap w) (a : BitVec w) (n v : Nat) :
    (h.store a n v).mem = storeLE h.mem a n v := rfl

@[simp] theorem Heap.touch_mem (h : Heap w) (a : BitVec w) (n : Nat) :
    (h.touch a n).mem = h.mem := rfl

/-- Every byte accessed so far was accessed in an allowed way. -/
def Heap.Safe (allowed : AccessKind → BitVec w → Prop) (h : Heap w) : Prop :=
  ∀ acc ∈ h.log, ∀ b, b ∈ acc.region → allowed acc.kind b

theorem Heap.Safe.store {allowed : AccessKind → BitVec w → Prop} {h : Heap w}
    (hs : h.Safe allowed) {a : BitVec w} {n : Nat} (v : Nat)
    (ha : ∀ b, b ∈ (⟨a, n⟩ : Region w) → allowed .store b) :
    (h.store a n v).Safe allowed := by
  intro acc hacc
  rcases List.mem_cons.mp hacc with rfl | hold
  · exact ha
  · exact hs acc hold

theorem Heap.Safe.touch {allowed : AccessKind → BitVec w → Prop} {h : Heap w}
    (hs : h.Safe allowed) {a : BitVec w} {n : Nat}
    (ha : ∀ b, b ∈ (⟨a, n⟩ : Region w) → allowed .load b) :
    (h.touch a n).Safe allowed := by
  intro acc hacc
  rcases List.mem_cons.mp hacc with rfl | hold
  · exact ha
  · exact hs acc hold

end ByteMem
