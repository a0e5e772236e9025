import PacketPro.Framework.Transitions
import Mathlib.Algebra.Order.BigOperators.Group.Finset
import Mathlib.Data.Fintype.Basic
import Mathlib.Algebra.Order.Group.Multiset

/-! # Resources That Change Hands

    A keeper lends resources to threads and takes them back. All of them share
    one store: a thread writes to cells of its own, the keeper to the areas of
    the resources that are with it at the moment. So what a thread finds in the
    area of a resource is a constant for as long as the thread holds it.

    **Lending rule** (`Contract.invariant`): if no step loses or copies a
    resource, then every resource is in one place, once, in every reachable
    state; and what each thread keeps when it runs alone, and what is written
    elsewhere cannot touch, holds of every thread.
-/

open Transitions

namespace Lending

variable {ι σ ε α β A V R : Type}

/-- The state of each thread, that of the keeper, and the store they share. -/
structure State (ι σ ε A V : Type) where
  threads : ι → σ
  keeper : ε
  store : A → V

/-- What one thread works on. -/
structure Desk (σ ε A V : Type) where
  thread : σ
  keeper : ε
  store : A → V

inductive Label (ι α β : Type) where
  | thread (i : ι) (a : α)
  | keeper (b : β)

/-- What the threads and the keeper can do. -/
structure Parties (ι σ ε α β A V : Type) where
  act : ι → α → Desk σ ε A V → Desk σ ε A V → Prop
  serve : β → ε → (A → V) → ε → (A → V) → Prop

/-- All interleavings of the threads and the keeper. -/
def system [DecidableEq ι] (init : State ι σ ε A V → Prop) (parties : Parties ι σ ε α β A V) :
    System (State ι σ ε A V) (Label ι α β) where
  init := init
  step s l s' :=
    match l with
    | .thread i a => ∃ d, parties.act i a ⟨s.threads i, s.keeper, s.store⟩ d ∧
        s' = ⟨Function.update s.threads i d.thread, d.keeper, d.store⟩
    | .keeper b => ∃ e m, parties.serve b s.keeper s.store e m ∧ s' = ⟨s.threads, e, m⟩

section runs
variable [DecidableEq ι] {init : State ι σ ε A V → Prop} {parties : Parties ι σ ε α β A V}
  {s : State ι σ ε A V}

theorem reachable_thread (h : Reachable (system init parties) s) {i : ι} {a : α}
    {d : Desk σ ε A V} (hact : parties.act i a ⟨s.threads i, s.keeper, s.store⟩ d) :
    Reachable (system init parties) ⟨Function.update s.threads i d.thread, d.keeper, d.store⟩ :=
  h.step (a := .thread i a) ⟨d, hact, rfl⟩

theorem reachable_keeper (h : Reachable (system init parties) s) {b : β} {e : ε} {m : A → V}
    (hserve : parties.serve b s.keeper s.store e m) :
    Reachable (system init parties) ⟨s.threads, e, m⟩ :=
  h.step (a := .keeper b) ⟨e, m, hserve, rfl⟩

end runs

/-- Who has which resources, and where things are in the store. -/
structure Books (ι σ ε A R : Type) where
  held : ι → σ → Multiset R
  kept : ε → Multiset R
  owns : ι → A → Prop
  area : R → A → Prop

/-- The keeper and one thread have nothing that is not there. -/
def Books.Within (books : Books ι σ ε A R) (all : Multiset R) (i : ι) (d : Desk σ ε A V) : Prop :=
  books.kept d.keeper + books.held i d.thread ≤ all

/-- What makes an invariant of the single threads hold of all of them. -/
structure Contract (parties : Parties ι σ ε α β A V) (books : Books ι σ ε A R) (all : Multiset R)
    (inv : ι → σ → (A → V) → Prop) : Prop where
  /-- A thread's own steps keep its invariant. -/
  keeps : ∀ i a d d', inv i d.thread d.store → books.Within all i d → parties.act i a d d' →
    inv i d'.thread d'.store
  /-- What a thread has no longer, the keeper has, and the other way round. -/
  conserves : ∀ i a d d', inv i d.thread d.store → books.Within all i d →
    parties.act i a d d' →
    books.kept d'.keeper + books.held i d'.thread = books.kept d.keeper + books.held i d.thread
  /-- A thread writes to its own cells only. -/
  frame : ∀ i a d d', inv i d.thread d.store → books.Within all i d → parties.act i a d d' →
    ∀ c, ¬ books.owns i c → d'.store c = d.store c
  /-- The keeper moves resources about, and writes to those it has. -/
  serves : ∀ b e m e' m', parties.serve b e m e' m' → books.kept e' = books.kept e ∧
    ∀ c, (∀ r ∈ books.kept e, ¬ books.area r c) → m' c = m c
  /-- A thread's invariant is about its own cells, the resources it holds, and
      the constants. -/
  stable : ∀ i t m m', inv i t m →
    (∀ c, (∀ j, j ≠ i → ¬ books.owns j c) →
      (∀ r ∈ all, r ∉ books.held i t → ¬ books.area r c) → m' c = m c) → inv i t m'

section rule
variable [Fintype ι] {parties : Parties ι σ ε α β A V} {books : Books ι σ ε A R}
  {all : Multiset R} {inv : ι → σ → (A → V) → Prop} {s s' : State ι σ ε A V}

/-- Every resource is with the keeper or with one thread. -/
def Balanced (books : Books ι σ ε A R) (all : Multiset R) (s : State ι σ ε A V) : Prop :=
  books.kept s.keeper + ∑ i, books.held i (s.threads i) = all

theorem Balanced.within (h : Balanced books all s) (i : ι) :
    books.Within all i ⟨s.threads i, s.keeper, s.store⟩ := by
  have hle : books.held i (s.threads i) ≤ ∑ j, books.held j (s.threads j) :=
    Finset.single_le_sum (f := fun j => books.held j (s.threads j)) (fun _ _ => Multiset.zero_le _)
      (Finset.mem_univ i)
  rw [Books.Within, ← h]
  exact add_le_add_right hle _

/-- What the keeper has, no thread has. -/
theorem Balanced.not_held (h : Balanced books all s) (hnodup : all.Nodup) {r : R}
    (hr : r ∈ books.kept s.keeper) (i : ι) : r ∉ books.held i (s.threads i) := by
  have hsum := Multiset.nodup_of_le (h.within i) hnodup
  exact Multiset.disjoint_left.mp (Multiset.nodup_add.mp hsum).2.2 hr

variable [DecidableEq ι]

/-- What one thread holds, no other one does. -/
theorem Balanced.not_held_twice (h : Balanced books all s) (hnodup : all.Nodup) {r : R} {i j : ι}
    (hne : j ≠ i) (hr : r ∈ books.held i (s.threads i)) : r ∉ books.held j (s.threads j) := by
  have hsplit := Finset.add_sum_erase Finset.univ (fun k => books.held k (s.threads k))
    (Finset.mem_univ i)
  have hnodup' := hnodup
  rw [← h, ← hsplit, Multiset.nodup_add, Multiset.nodup_add] at hnodup'
  have hle : books.held j (s.threads j) ≤
      ∑ k ∈ Finset.univ.erase i, books.held k (s.threads k) :=
    Finset.single_le_sum (f := fun k => books.held k (s.threads k)) (fun _ _ => Multiset.zero_le _)
      (Finset.mem_erase.mpr ⟨hne, Finset.mem_univ j⟩)
  intro hj
  exact Multiset.disjoint_left.mp hnodup'.2.1.2.2 hr (Multiset.mem_of_le hle hj)

/-- **Step lemma**: a step of any party keeps the balance and the invariants of
    all threads. -/
theorem Contract.step (h : Contract parties books all inv) (hnodup : all.Nodup)
    {init : State ι σ ε A V → Prop} {l : Label ι α β} (hbalanced : Balanced books all s)
    (hinv : ∀ i, inv i (s.threads i) s.store) (hstep : (system init parties).step s l s') :
    Balanced books all s' ∧ ∀ i, inv i (s'.threads i) s'.store := by
  cases l with
  | thread i a =>
    obtain ⟨d, hact, rfl⟩ := hstep
    have hwithin := hbalanced.within i
    constructor
    · have hsplit := Finset.add_sum_erase Finset.univ (fun k => books.held k (s.threads k))
        (Finset.mem_univ i)
      rw [Balanced, sum_update_of_mem (Finset.mem_univ i) books.held, ← add_assoc,
        h.conserves i a _ d (hinv i) hwithin hact, add_assoc, hsplit]
      exact hbalanced
    · intro j
      by_cases hj : j = i
      · subst hj
        simp only [Function.update_self]
        exact h.keeps j a _ d (hinv j) hwithin hact
      · -- any other thread sees a change in cells that are not its own
        simp only [Function.update_of_ne hj]
        apply h.stable j _ s.store d.store (hinv j)
        intro c hc _
        exact h.frame i a _ d (hinv i) hwithin hact c (hc i (Ne.symm hj))
  | keeper b =>
    obtain ⟨e, m, hserve, rfl⟩ := hstep
    obtain ⟨hkept, hframe⟩ := h.serves b _ _ _ _ hserve
    constructor
    · rw [Balanced, hkept]
      exact hbalanced
    · -- the keeper has none of what a thread holds
      intro i
      apply h.stable i _ s.store m (hinv i)
      intro c _ hc
      apply hframe
      intro r hr
      have hall : r ∈ all := by
        rw [← hbalanced]
        exact Multiset.mem_add.mpr (Or.inl hr)
      exact hc r hall (hbalanced.not_held hnodup hr i)

/-- **Lending rule**. -/
theorem Contract.invariant (h : Contract parties books all inv) (hnodup : all.Nodup)
    {init : State ι σ ε A V → Prop}
    (hinit : ∀ s, init s → Balanced books all s ∧ ∀ i, inv i (s.threads i) s.store)
    (hreach : Reachable (system init parties) s) :
    Balanced books all s ∧ ∀ i, inv i (s.threads i) s.store :=
  ReachableWhile.invariant (fun s => Balanced books all s ∧ ∀ i, inv i (s.threads i) s.store)
    hinit (fun _ _ _ hinv _ hstep => h.step hnodup hinv.1 hinv.2 hstep) hreach

end rule

end Lending
