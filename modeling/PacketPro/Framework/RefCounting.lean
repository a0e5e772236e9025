import PacketPro.Framework.Transitions
import Mathlib.Algebra.Order.BigOperators.Group.Finset
import Mathlib.Data.Fintype.Basic
import Mathlib.Algebra.Order.Group.Multiset

/-! # Reference Counts

    Threads that share objects of one heap. Each object has a counter and
    contents. References to an object are with the threads or stored in the
    heap; an object whose counter is zero is in the pool, or one thread is about
    to put it there.

    A thread may write to the contents of an object if no one else has a
    reference to it, and may change the counter of an object if it has one.

    **Counting rule** (`Contract.invariant`): if every step changes the counters
    as it changes the references, then the counters are exact in every
    interleaving, every object without references is in one place, and what a
    thread knows of its objects stays true whatever the others do.
-/

open Transitions

namespace RefCounting

variable {ι σ α H R F : Type}

/-! ## Section 1: Definitions -/

structure State (ι σ H : Type) where
  threads : ι → σ
  heap : H

/-- All interleavings of threads that share a heap. -/
def system [DecidableEq ι] (init : State ι σ H → Prop) (act : α → σ → H → σ → H → Prop) :
    System (State ι σ H) (ι × α) where
  init := init
  step s a s' := ∃ t h, act a.2 (s.threads a.1) s.heap t h ∧
    s' = ⟨Function.update s.threads a.1 t, h⟩

/-- The objects, and who has references to them. -/
structure Books (σ H R F : Type) where
  all : Finset R
  count : H → R → Nat
  contents : H → R → F
  pool : H → Multiset R
  /-- References in the heap. -/
  stored : H → Multiset R
  /-- References of a thread. -/
  refs : σ → Multiset R
  /-- Objects without references that a thread has for itself. -/
  owned : σ → Multiset R

namespace Books

variable [DecidableEq R] (books : Books σ H R F)

/-- How many references there should be. -/
def due (h : H) (r : R) : Nat := if r ∈ books.all then books.count h r else 0

/-- One for an object without references. -/
def vacant (h : H) (r : R) : Nat := if r ∈ books.all ∧ books.count h r = 0 then 1 else 0

/-- What one thread can see of the balance. -/
structure Within (t : σ) (h : H) : Prop where
  counted : ∀ r, (books.stored h + books.refs t).count r ≤ books.due h r
  placed : ∀ r, (books.pool h + books.owned t).count r ≤ books.vacant h r

/-- A step changes counters as it changes references, and puts away what has
    none any more. -/
structure Settles (t : σ) (h : H) (t' : σ) (h' : H) : Prop where
  counted : ∀ r, books.due h' r + (books.stored h + books.refs t).count r =
    books.due h r + (books.stored h' + books.refs t').count r
  placed : ∀ r, books.vacant h' r + (books.pool h + books.owned t).count r =
    books.vacant h r + (books.pool h' + books.owned t').count r

/-- No one else has a reference. -/
def Private (t : σ) (h : H) (r : R) : Prop :=
  r ∈ books.owned t ∨ r ∈ books.pool h ∨
    r ∈ books.refs t ∧ books.count h r = (books.refs t).count r

/-- What a thread does not do to the objects of the others. -/
structure Guarantee (t : σ) (h h' : H) : Prop where
  contents : ∀ r, ¬ books.Private t h r → books.contents h' r = books.contents h r
  count : ∀ r, r ∉ books.refs t → r ∉ books.owned t → r ∉ books.pool h →
    books.count h' r = books.count h r

/-- What a thread may rely on while the others run. -/
structure Rely (t : σ) (h h' : H) : Prop where
  contents : ∀ r ∈ books.refs t + books.owned t, books.contents h' r = books.contents h r
  count : ∀ r ∈ books.refs t, books.count h r = (books.refs t).count r →
    books.count h' r = books.count h r

/-- What a step of a thread has to meet. -/
structure Correct (inv : σ → H → Prop) (heapInv : H → Prop) (t : σ) (h : H) (t' : σ) (h' : H) :
    Prop where
  settles : books.Settles t h t' h'
  guarantee : books.Guarantee t h h'
  inv : inv t' h'
  heap : heapInv h'

end Books

/-- The counters are exact, and what has no reference is in one place. -/
structure Balanced [DecidableEq R] [Fintype ι] (books : Books σ H R F) (s : State ι σ H) :
    Prop where
  counted : ∀ r, (books.stored s.heap + ∑ i, books.refs (s.threads i)).count r =
    books.due s.heap r
  placed : ∀ r, (books.pool s.heap + ∑ i, books.owned (s.threads i)).count r =
    books.vacant s.heap r

/-- What makes an invariant of the single threads, and one of the heap, hold in
    every interleaving. -/
structure Contract [DecidableEq R] (books : Books σ H R F) (act : α → σ → H → σ → H → Prop)
    (admits : α → σ → H → Prop) (inv : σ → H → Prop) (heapInv : H → Prop) : Prop where
  step : ∀ a t h t' h', books.Within t h → inv t h → heapInv h → admits a t h →
    act a t h t' h' → books.Correct inv heapInv t h t' h'
  stable : ∀ t h h', books.Within t h → inv t h → books.Rely t h h' → inv t h'

/-! ## Section 2: What one thread can see -/

namespace Books

variable [DecidableEq R] {books : Books σ H R F} {t : σ} {h h' : H} {r : R}

theorem Within.mem_all_of_ref (hw : books.Within t h) (hr : r ∈ books.stored h + books.refs t) :
    r ∈ books.all ∧ (books.stored h).count r + (books.refs t).count r ≤ books.count h r := by
  have hcount := hw.counted r
  have hpos := Multiset.count_pos.mpr hr
  by_cases hall : r ∈ books.all
  · rw [due, if_pos hall, Multiset.count_add] at hcount
    exact ⟨hall, hcount⟩
  · rw [due, if_neg hall] at hcount
    omega

theorem Within.of_vacant (hw : books.Within t h) (hr : r ∈ books.pool h + books.owned t) :
    r ∈ books.all ∧ books.count h r = 0 ∧
      (books.pool h).count r + (books.owned t).count r = 1 := by
  have hcount := hw.placed r
  have hpos := Multiset.count_pos.mpr hr
  rw [Multiset.count_add] at hcount hpos
  by_cases hv : r ∈ books.all ∧ books.count h r = 0
  · rw [vacant, if_pos hv] at hcount
    exact ⟨hv.1, hv.2, by omega⟩
  · rw [vacant, if_neg hv] at hcount
    omega

/-- An object that no one else has a reference to has none in the heap. -/
theorem Within.not_stored (hw : books.Within t h) (hprivate : books.Private t h r) :
    r ∉ books.stored h := by
  intro hr
  obtain ⟨-, hle⟩ := hw.mem_all_of_ref (Multiset.mem_add.mpr (Or.inl hr))
  have hpos := Multiset.count_pos.mpr hr
  rcases hprivate with hown | hpool | ⟨-, hcount⟩
  · have hzero := (hw.of_vacant (Multiset.mem_add.mpr (Or.inr hown))).2.1
    omega
  · have hzero := (hw.of_vacant (Multiset.mem_add.mpr (Or.inl hpool))).2.1
    omega
  · omega

/-- Objects with a reference in the heap are left alone. -/
theorem Guarantee.stored (hg : books.Guarantee t h h') (hw : books.Within t h)
    (hr : r ∈ books.stored h) : books.contents h' r = books.contents h r :=
  hg.contents r fun hprivate => hw.not_stored hprivate hr

theorem Guarantee.refl : books.Guarantee t h h := ⟨fun _ _ => rfl, fun _ _ _ _ => rfl⟩

/-! ### The kinds of steps -/

section kinds
variable {t' : σ} {m : R}

theorem due_of_count (hcount : books.count h' r = books.count h r) :
    books.due h' r = books.due h r := by
  rw [due, due, hcount]

theorem vacant_of_count (hcount : books.count h' r = books.count h r) :
    books.vacant h' r = books.vacant h r := by
  rw [vacant, vacant, hcount]

/-- References and objects change hands. -/
theorem Settles.move (hcount : ∀ r, books.count h' r = books.count h r)
    (hrefs : books.stored h' + books.refs t' = books.stored h + books.refs t)
    (hpool : books.pool h' + books.owned t' = books.pool h + books.owned t) :
    books.Settles t h t' h' :=
  ⟨fun r => by rw [due_of_count (hcount r), hrefs],
    fun r => by rw [vacant_of_count (hcount r), hpool]⟩

/-- There are more references to an object that has one. -/
theorem Settles.gain (n : Nat) (hm : m ∈ books.all) (hpos : books.count h m ≠ 0)
    (hgain : books.count h' m = books.count h m + n)
    (hcount : ∀ r, r ≠ m → books.count h' r = books.count h r)
    (hrefs : books.stored h' + books.refs t' =
      books.stored h + books.refs t + Multiset.replicate n m)
    (hpool : books.pool h' + books.owned t' = books.pool h + books.owned t) :
    books.Settles t h t' h' := by
  constructor
  · intro r
    rw [hrefs, Multiset.count_add _ (books.stored h + books.refs t), Multiset.count_replicate]
    by_cases hr : m = r
    · subst hr
      rw [if_pos rfl, due, due, if_pos hm, if_pos hm]
      omega
    · rw [if_neg hr, due_of_count (hcount r (Ne.symm hr))]
      rfl
  · intro r
    rw [hpool]
    by_cases hr : r = m
    · subst hr
      rw [vacant, vacant, if_neg fun hv => by omega, if_neg fun hv => hpos hv.2]
    · rw [vacant_of_count (hcount r hr)]

/-- A reference is given back, and it was not the last one. -/
theorem Settles.drop (hm : m ∈ books.all) (hpos : books.count h' m ≠ 0)
    (hdrop : books.count h' m + 1 = books.count h m)
    (hcount : ∀ r, r ≠ m → books.count h' r = books.count h r)
    (hrefs : books.stored h + books.refs t = m ::ₘ (books.stored h' + books.refs t'))
    (hpool : books.pool h' + books.owned t' = books.pool h + books.owned t) :
    books.Settles t h t' h' := by
  constructor
  · intro r
    rw [hrefs, Multiset.count_cons]
    by_cases hr : r = m
    · subst hr
      rw [if_pos rfl, due, due, if_pos hm, if_pos hm]
      omega
    · rw [if_neg hr, due_of_count (hcount r hr)]
      rfl
  · intro r
    rw [hpool]
    by_cases hr : r = m
    · subst hr
      rw [vacant, vacant, if_neg fun hv => hpos hv.2, if_neg fun hv => by omega]
    · rw [vacant_of_count (hcount r hr)]

/-- The last reference is given back, and the thread has the object. -/
theorem Settles.last (hm : m ∈ books.all) (hone : books.count h m = 1)
    (hzero : books.count h' m = 0) (hcount : ∀ r, r ≠ m → books.count h' r = books.count h r)
    (hrefs : books.stored h + books.refs t = m ::ₘ (books.stored h' + books.refs t'))
    (hpool : books.pool h' + books.owned t' = m ::ₘ (books.pool h + books.owned t)) :
    books.Settles t h t' h' := by
  constructor
  · intro r
    rw [hrefs, Multiset.count_cons]
    by_cases hr : r = m
    · subst hr
      rw [if_pos rfl, due, due, if_pos hm, if_pos hm]
      omega
    · rw [if_neg hr, due_of_count (hcount r hr)]
      rfl
  · intro r
    rw [hpool, Multiset.count_cons]
    by_cases hr : r = m
    · subst hr
      rw [if_pos rfl, vacant, vacant, if_pos ⟨hm, hzero⟩, if_neg fun hv => by omega]
      omega
    · rw [if_neg hr, vacant_of_count (hcount r hr)]
      rfl

/-- The first reference to an object of the pool. -/
theorem Settles.first (hm : m ∈ books.all) (hzero : books.count h m = 0)
    (hone : books.count h' m = 1) (hcount : ∀ r, r ≠ m → books.count h' r = books.count h r)
    (hrefs : books.stored h' + books.refs t' = m ::ₘ (books.stored h + books.refs t))
    (hpool : books.pool h + books.owned t = m ::ₘ (books.pool h' + books.owned t')) :
    books.Settles t h t' h' := by
  have hback : books.Settles t' h' t h := Settles.last hm hone hzero
    (fun r hr => (hcount r hr).symm) hrefs hpool
  exact ⟨fun r => (hback.counted r).symm, fun r => (hback.placed r).symm⟩

end kinds

end Books

/-! ## Section 3: All threads -/

section rule
variable [DecidableEq R] [Fintype ι] {books : Books σ H R F} {s : State ι σ H}

theorem count_le_sum (f : ι → Multiset R) (i : ι) (r : R) :
    (f i).count r ≤ (∑ j, f j).count r :=
  Multiset.count_le_of_le r
    (Finset.single_le_sum (f := f) (fun _ _ => Multiset.zero_le _) (Finset.mem_univ i))

theorem count_add_count_le_sum (f : ι → Multiset R) {i j : ι} (hne : j ≠ i) (r : R) :
    (f i).count r + (f j).count r ≤ (∑ k, f k).count r := by
  classical
  rw [← Finset.add_sum_erase _ _ (Finset.mem_univ i), Multiset.count_add]
  have hle : f j ≤ ∑ k ∈ Finset.univ.erase i, f k :=
    Finset.single_le_sum (f := f) (fun _ _ => Multiset.zero_le _)
      (Finset.mem_erase.mpr ⟨hne, Finset.mem_univ j⟩)
  have hcount := Multiset.count_le_of_le r hle
  omega

theorem Balanced.within (hb : Balanced books s) (i : ι) :
    books.Within (s.threads i) s.heap := by
  constructor
  · intro r
    have hle := count_le_sum (fun j => books.refs (s.threads j)) i r
    rw [← hb.counted r, Multiset.count_add, Multiset.count_add]
    omega
  · intro r
    have hle := count_le_sum (fun j => books.owned (s.threads j)) i r
    rw [← hb.placed r, Multiset.count_add, Multiset.count_add]
    omega

/-- What is in the pool is there once, and no one has a reference to it. -/
theorem Balanced.pooled (hb : Balanced books s) {r : R} (hr : r ∈ books.pool s.heap) :
    r ∈ books.all ∧ books.count s.heap r = 0 ∧ (books.pool s.heap).count r = 1 ∧
      r ∉ books.stored s.heap ∧ ∀ i, r ∉ books.refs (s.threads i) ∧ r ∉ books.owned (s.threads i)
    := by
  have hpos := Multiset.count_pos.mpr hr
  have hplaced := hb.placed r
  rw [Multiset.count_add] at hplaced
  have hv : r ∈ books.all ∧ books.count s.heap r = 0 := by
    by_contra hnot
    rw [Books.vacant, if_neg hnot] at hplaced
    omega
  rw [Books.vacant, if_pos hv] at hplaced
  have hcounted := hb.counted r
  rw [Books.due, if_pos hv.1, hv.2, Multiset.count_add] at hcounted
  refine ⟨hv.1, hv.2, by omega, Multiset.count_eq_zero.mp (by omega), fun i => ?_⟩
  have hrefs := count_le_sum (fun j => books.refs (s.threads j)) i r
  have howned := count_le_sum (fun j => books.owned (s.threads j)) i r
  exact ⟨Multiset.count_eq_zero.mp (by omega), Multiset.count_eq_zero.mp (by omega)⟩

/-- Two threads do not both have an object for themselves. -/
theorem Balanced.private_apart (hb : Balanced books s) {i j : ι} (hne : j ≠ i) {r : R}
    (hprivate : books.Private (s.threads i) s.heap r) :
    r ∉ books.refs (s.threads j) + books.owned (s.threads j) := by
  have hrefs := count_add_count_le_sum (fun k => books.refs (s.threads k)) hne r
  have howned := count_add_count_le_sum (fun k => books.owned (s.threads k)) hne r
  have hcounted := hb.counted r
  have hplaced := hb.placed r
  rw [Multiset.count_add] at hcounted hplaced
  have hwithin := hb.within i
  intro hr
  rcases hprivate with hown | hpool | ⟨href, hcount⟩
  · obtain ⟨hall, hzero, -⟩ := hwithin.of_vacant (Multiset.mem_add.mpr (Or.inr hown))
    have hpos := Multiset.count_pos.mpr hown
    rw [Books.due, if_pos hall] at hcounted
    rw [Books.vacant, if_pos ⟨hall, hzero⟩] at hplaced
    rcases Multiset.mem_add.mp hr with h | h <;> have := Multiset.count_pos.mpr h <;> omega
  · obtain ⟨hall, hzero, -⟩ := hwithin.of_vacant (Multiset.mem_add.mpr (Or.inl hpool))
    have hpos := Multiset.count_pos.mpr hpool
    rw [Books.due, if_pos hall] at hcounted
    rw [Books.vacant, if_pos ⟨hall, hzero⟩] at hplaced
    rcases Multiset.mem_add.mp hr with h | h <;> have := Multiset.count_pos.mpr h <;> omega
  · obtain ⟨hall, -⟩ := hwithin.mem_all_of_ref (Multiset.mem_add.mpr (Or.inr href))
    have hpos := Multiset.count_pos.mpr href
    rw [Books.due, if_pos hall] at hcounted
    rw [Books.vacant, if_neg fun hv => by omega] at hplaced
    rcases Multiset.mem_add.mp hr with h | h <;> have := Multiset.count_pos.mpr h <;> omega

/-- What one thread guarantees is what the others rely on. -/
theorem Balanced.rely (hb : Balanced books s) {i j : ι} (hne : j ≠ i) {h : H}
    (hg : books.Guarantee (s.threads i) s.heap h) : books.Rely (s.threads j) s.heap h := by
  constructor
  · intro r hr
    exact hg.contents r fun hprivate => hb.private_apart hne hprivate hr
  · intro r hr hcount
    have hprivate : books.Private (s.threads j) s.heap r := Or.inr (Or.inr ⟨hr, hcount⟩)
    have hapart := hb.private_apart (Ne.symm hne) hprivate
    rw [Multiset.mem_add, not_or] at hapart
    apply hg.count r hapart.1 hapart.2
    intro hpool
    exact (hb.pooled hpool).2.2.2.2 j |>.1 hr

variable [DecidableEq ι]

theorem Balanced.settle (hb : Balanced books s) {i : ι} {t : σ} {h : H}
    (hsettles : books.Settles (s.threads i) s.heap t h) :
    Balanced books ⟨Function.update s.threads i t, h⟩ := by
  constructor
  · intro r
    have hbefore := hb.counted r
    have hstep := hsettles.counted r
    rw [← Finset.add_sum_erase _ _ (Finset.mem_univ i)] at hbefore
    rw [sum_update_of_mem (Finset.mem_univ i) fun _ => books.refs]
    simp only [Multiset.count_add] at hbefore hstep ⊢
    omega
  · intro r
    have hbefore := hb.placed r
    have hstep := hsettles.placed r
    rw [← Finset.add_sum_erase _ _ (Finset.mem_univ i)] at hbefore
    rw [sum_update_of_mem (Finset.mem_univ i) fun _ => books.owned]
    simp only [Multiset.count_add] at hbefore hstep ⊢
    omega

variable {act : α → σ → H → σ → H → Prop} {admits : α → σ → H → Prop} {inv : σ → H → Prop}
  {heapInv : H → Prop} {init : State ι σ H → Prop}

/-- **Step lemma**: a step of one thread keeps the balance, what each thread
    knows, and the invariant of the heap. -/
theorem Contract.step_all (hc : Contract books act admits inv heapInv) {s' : State ι σ H}
    {a : ι × α} (hb : Balanced books s) (hinv : ∀ i, inv (s.threads i) s.heap)
    (hheap : heapInv s.heap) (hadmits : admits a.2 (s.threads a.1) s.heap)
    (hstep : (system init act).step s a s') :
    Balanced books s' ∧ (∀ i, inv (s'.threads i) s'.heap) ∧ heapInv s'.heap := by
  obtain ⟨t, h, hact, rfl⟩ := hstep
  have hwithin := hb.within a.1
  have hcorrect := hc.step _ _ _ t h hwithin (hinv a.1) hheap hadmits hact
  refine ⟨hb.settle hcorrect.settles, ?_, hcorrect.heap⟩
  intro j
  by_cases hj : j = a.1
  · subst hj
    simp only [Function.update_self]
    exact hcorrect.inv
  · simp only [Function.update_of_ne hj]
    exact hc.stable _ _ _ (hb.within j) (hinv j) (hb.rely hj hcorrect.guarantee)

/-- **Counting rule**. -/
theorem Contract.invariant (hc : Contract books act admits inv heapInv)
    (hinit : ∀ s, init s → Balanced books s ∧ (∀ i, inv (s.threads i) s.heap) ∧ heapInv s.heap)
    (hreach : ReachableWhile (system init act) (fun s a => admits a.2 (s.threads a.1) s.heap) s) :
    Balanced books s ∧ (∀ i, inv (s.threads i) s.heap) ∧ heapInv s.heap :=
  hreach.invariant
    (fun s => Balanced books s ∧ (∀ i, inv (s.threads i) s.heap) ∧ heapInv s.heap) hinit
    fun _ _ _ hinv hadmits hstep => hc.step_all hinv.1 hinv.2.1 hinv.2.2 hadmits hstep

end rule

end RefCounting
