import PacketPro.Framework.Memory

/-! # Record Layouts

    A record in memory is a base address and a layout, which gives every field
    an offset and a size. This module has the laws of field access that hold
    for any layout whose fields tile the record:

    * **Byte sequences**: `bytesLE` lists the bytes of a number, least
      significant first; `ofBytesLE` and `ofBytesBE` are the numbers that a
      list of bytes stands for in the two byte orders.
    * **Layouts**: `Layout.Tiles`, and what a store to one field means for a
      load of the same field, of another field, and for all other bytes.
    * **Sequences**: numbers of any sizes stored one behind the other are
      loaded back by the same sizes (`loadAll_storeAll`).
-/

namespace ByteMem

variable {w : Nat}

/-! ## Section 1: Byte sequences -/

/-- The number whose bytes these are, least significant first. -/
def ofBytesLE : List (BitVec 8) → Nat
  | [] => 0
  | b :: bs => b.toNat + 256 * ofBytesLE bs

/-- The number whose bytes these are, most significant first. -/
def ofBytesBE (bs : List (BitVec 8)) : Nat := ofBytesLE bs.reverse

/-- The low `n` bytes of a number, least significant first. -/
def bytesLE : Nat → Nat → List (BitVec 8)
  | 0, _ => []
  | n + 1, v => BitVec.ofNat 8 v :: bytesLE n (v / 256)

/-- The `n` bytes in memory from `a` on. -/
def bytesAt (m : Memory w) (a : BitVec w) : Nat → List (BitVec 8)
  | 0 => []
  | n + 1 => m a :: bytesAt m (a + 1) n

theorem byte_add_mul (b : BitVec 8) (x : Nat) : BitVec.ofNat 8 (b.toNat + 256 * x) = b := by
  have hb := b.isLt
  apply BitVec.eq_of_toNat_eq
  rw [BitVec.toNat_ofNat]
  omega

/-- The lowest byte of a word. -/
theorem byte_loadLE (m : Memory w) (a : BitVec w) (n : Nat) :
    BitVec.ofNat 8 (loadLE m a (n + 1)) = m a := byte_add_mul (m a) _

theorem add_mul_div (b : BitVec 8) (x : Nat) : (b.toNat + 256 * x) / 256 = x := by
  have hb := b.isLt
  omega

theorem ofBytesLE_lt (bs : List (BitVec 8)) : ofBytesLE bs < 256 ^ bs.length := by
  induction bs with
  | nil => exact Nat.one_pos
  | cons b bs ih =>
    have hb := b.isLt
    rw [ofBytesLE, List.length_cons, Nat.pow_succ]
    omega

theorem bytesLE_ofBytesLE (bs : List (BitVec 8)) : bytesLE bs.length (ofBytesLE bs) = bs := by
  induction bs with
  | nil => rfl
  | cons b bs ih => rw [List.length_cons, ofBytesLE, bytesLE, byte_add_mul, add_mul_div, ih]

theorem ofBytesLE_bytesLE {n v : Nat} (hv : v < 256 ^ n) : ofBytesLE (bytesLE n v) = v := by
  induction n generalizing v with
  | zero =>
    rw [Nat.pow_zero, Nat.lt_one_iff] at hv
    rw [bytesLE, ofBytesLE, hv]
  | succ n ih =>
    have htail : v / 256 < 256 ^ n := by
      rw [Nat.pow_succ] at hv
      omega
    rw [bytesLE, ofBytesLE, ih htail, BitVec.toNat_ofNat]
    omega

/-- Equal numbers of equally many bytes have equal bytes. -/
theorem ofBytesLE_inj {bs bs' : List (BitVec 8)} (hlen : bs.length = bs'.length)
    (h : ofBytesLE bs = ofBytesLE bs') : bs = bs' := by
  rw [← bytesLE_ofBytesLE bs, ← bytesLE_ofBytesLE bs', hlen, h]

@[simp] theorem bytesAt_length (m : Memory w) (a : BitVec w) (n : Nat) :
    (bytesAt m a n).length = n := by
  induction n generalizing a with
  | zero => rfl
  | succ n ih => rw [bytesAt, List.length_cons, ih]

theorem loadLE_eq_ofBytesLE (m : Memory w) (a : BitVec w) (n : Nat) :
    loadLE m a n = ofBytesLE (bytesAt m a n) := by
  induction n generalizing a with
  | zero => rfl
  | succ n ih => rw [loadLE, bytesAt, ofBytesLE, ih]

theorem bytesLE_loadLE (m : Memory w) (a : BitVec w) (n : Nat) :
    bytesLE n (loadLE m a n) = bytesAt m a n := by
  have h := bytesLE_ofBytesLE (bytesAt m a n)
  rwa [bytesAt_length, ← loadLE_eq_ofBytesLE] at h

/-- A little-endian load gives the big-endian value of its bytes exactly when
    they read the same in both directions. -/
theorem loadLE_eq_ofBytesBE_iff (m : Memory w) (a : BitVec w) (n : Nat) :
    loadLE m a n = ofBytesBE (bytesAt m a n) ↔
      (bytesAt m a n).reverse = bytesAt m a n := by
  rw [loadLE_eq_ofBytesLE, ofBytesBE]
  constructor
  · exact fun h => (ofBytesLE_inj (List.length_reverse).symm h).symm
  · exact fun h => by rw [h]

/-- Storing a word is storing its lowest byte and then its tail one byte
    further on, the order of a loop over the bytes. -/
theorem storeLE_succ_low_first (m : Memory w) (a : BitVec w) {n : Nat} (v : Nat)
    (hn : n + 1 ≤ 2 ^ w) :
    storeLE m a (n + 1) v = storeLE (storeLE m a 1 v) (a + 1) n (v / 256) := by
  have hapart := Region.slice_disjoint (⟨a, n + 1⟩ : Region w) 1 n 0 1 (by omega) (by omega)
    (by omega)
  have hone : (⟨a, n + 1⟩ : Region w).slice 1 n = ⟨a + 1, n⟩ := rfl
  have hzero : (⟨a, n + 1⟩ : Region w).slice 0 1 = ⟨a, 1⟩ := by
    rw [Region.slice, BitVec.add_zero]
  rw [hone, hzero] at hapart
  rw [storeLE_succ]
  funext b
  -- the two stores do not meet, so their order does not matter
  by_cases hlow : b ∈ (⟨a, 1⟩ : Region w)
  · have hnot : ¬ (b - (a + 1)).toNat < n := hapart.symm b hlow
    have hlow' : (b - a).toNat < 1 := hlow
    simp only [storeLE, hnot, hlow', if_true, if_false]
  · have hlow' : ¬ (b - a).toNat < 1 := hlow
    simp only [storeLE, hlow', if_false]

/-! ## Section 2: Layouts -/

/-- Where the fields of a record lie. -/
structure Layout (F : Type) where
  off : F → Nat
  size : F → Nat

namespace Layout

variable {F : Type} (L : Layout F)

/-- The fields fill the first `n` bytes, and no byte belongs to two of them. -/
structure Tiles (n : Nat) : Prop where
  within : ∀ f, L.off f + L.size f ≤ n
  cover : ∀ i < n, ∃ f, L.off f ≤ i ∧ i < L.off f + L.size f
  apart : ∀ f g, f ≠ g → L.off f + L.size f ≤ L.off g ∨ L.off g + L.size g ≤ L.off f

/-- The bytes of a field of the record at `a`. -/
def field (a : BitVec w) (f : F) : Region w := ⟨a + BitVec.ofNat w (L.off f), L.size f⟩

/-- The number in a field. -/
def get (m : Memory w) (a : BitVec w) (f : F) : Nat :=
  loadLE m (a + BitVec.ofNat w (L.off f)) (L.size f)

variable {L} {n : Nat}

section laws
variable (h : L.Tiles n) (hn : n ≤ 2 ^ w) (m : Memory w) (a : BitVec w)
include h hn

theorem Tiles.disjoint {f g : F} (hne : f ≠ g) : (L.field a f).Disjoint (L.field a g) := by
  have hf := h.within f
  have hg := h.within g
  exact Region.slice_disjoint (⟨a, n⟩ : Region w) _ _ _ _ (h.apart f g hne) (by omega) (by omega)

/-- A field depends on its own bytes only. -/
theorem Tiles.get_congr {m m' : Memory w} {f : F} (heq : ∀ b, b ∈ L.field a f → m b = m' b) :
    L.get m a f = L.get m' a f := by
  have hf := h.within f
  exact loadLE_congr (by omega) heq

/-- A store inside one field leaves all other fields alone. -/
theorem Tiles.get_store_other {f g : F} (hne : g ≠ f) {k : Nat} (hk : k ≤ L.size f) (v : Nat) :
    L.get (storeLE m (a + BitVec.ofNat w (L.off f)) k v) a g = L.get m a g := by
  apply h.get_congr hn a
  intro b hb
  apply storeLE_of_not_mem
  intro hmem
  exact h.disjoint hn a hne b hb (Region.prefix_subset _ hk b hmem)

theorem Tiles.get_store_self (f : F) (v : Nat) :
    L.get (storeLE m (a + BitVec.ofNat w (L.off f)) (L.size f) v) a f =
      v % 256 ^ L.size f := by
  have hf := h.within f
  exact loadLE_storeLE_self m _ _ v (by omega)

end laws

end Layout

/-! ## Section 3: Sequences -/

/-- Store numbers, given with their sizes in bytes, one behind the other. -/
def storeAll (m : Memory w) (a : BitVec w) : List (Nat × Nat) → Memory w
  | [] => m
  | (n, v) :: fs => storeAll (storeLE m a n v) (a + BitVec.ofNat w n) fs

/-- Load numbers of the given sizes, one behind the other. -/
def loadAll (m : Memory w) (a : BitVec w) : List Nat → List Nat
  | [] => []
  | n :: ns => loadLE m a n :: loadAll m (a + BitVec.ofNat w n) ns

/-- Only the bytes of the sequence are written. -/
theorem storeAll_of_not_mem (m : Memory w) (a : BitVec w) (fs : List (Nat × Nat))
    (hfit : (fs.map Prod.fst).sum ≤ 2 ^ w) {b : BitVec w}
    (hb : b ∉ (⟨a, (fs.map Prod.fst).sum⟩ : Region w)) : storeAll m a fs b = m b := by
  induction fs generalizing m a with
  | nil => rfl
  | cons f fs ih =>
    rw [List.map_cons, List.sum_cons] at hfit hb
    have hhead : b ∉ (⟨a, f.1⟩ : Region w) :=
      fun hmem => hb (Region.prefix_subset a (by omega) b hmem)
    have htail : b ∉ (⟨a + BitVec.ofNat w f.1, (fs.map Prod.fst).sum⟩ : Region w) :=
      fun hmem => hb (Region.slice_subset (⟨a, f.1 + (fs.map Prod.fst).sum⟩ : Region w) f.1 _
        (Nat.le_refl _) hfit b hmem)
    rw [storeAll, ih _ _ (by omega) htail, storeLE_of_not_mem _ _ _ _ hhead]

/-- **Round trip** of a sequence. -/
theorem loadAll_storeAll (m : Memory w) (a : BitVec w) (fs : List (Nat × Nat))
    (hfit : (fs.map Prod.fst).sum ≤ 2 ^ w) (hrange : ∀ f ∈ fs, f.2 < 256 ^ f.1) :
    loadAll (storeAll m a fs) a (fs.map Prod.fst) = fs.map Prod.snd := by
  induction fs generalizing m a with
  | nil => rfl
  | cons f fs ih =>
    rw [List.map_cons, List.sum_cons] at hfit
    have hdisj : (⟨a, f.1⟩ : Region w).Disjoint
        ⟨a + BitVec.ofNat w f.1, (fs.map Prod.fst).sum⟩ := by
      have h := Region.slice_disjoint (⟨a, f.1 + (fs.map Prod.fst).sum⟩ : Region w) 0 f.1 f.1
        (fs.map Prod.fst).sum (by omega) (by omega) (by omega)
      rwa [Region.slice, BitVec.add_zero] at h
    -- the stores behind the first number do not reach it
    have hkept : ∀ b, b ∈ (⟨a, f.1⟩ : Region w) →
        storeAll m a (f :: fs) b = storeLE m a f.1 f.2 b := fun b hb =>
      storeAll_of_not_mem _ _ fs (by omega) (hdisj b hb)
    have hhead : loadLE (storeAll m a (f :: fs)) a f.1 = f.2 := by
      rw [loadLE_congr (by omega) hkept, loadLE_storeLE_self _ _ _ _ (by omega)]
      exact Nat.mod_eq_of_lt (hrange f (List.mem_cons_self ..))
    have htail := ih (storeLE m a f.1 f.2) (a + BitVec.ofNat w f.1) (by omega)
      (fun g hg => hrange g (List.mem_cons_of_mem _ hg))
    rw [List.map_cons, List.map_cons, loadAll, hhead, storeAll, htail]

end ByteMem
