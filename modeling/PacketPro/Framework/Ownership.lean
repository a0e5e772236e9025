import PacketPro.Framework.Transitions
import Mathlib.Logic.Function.Basic

/-! # Threads Over an Owned Store

    Threads that take turns on one shared store. Each thread has a state of its
    own, and each cell of the store is written by at most one of them; cells
    that no thread writes are constants.

    **Ownership rule** (`Contract.invariant`): what each thread keeps when it
    runs alone, and what the steps of the others cannot touch, holds of every
    thread in every interleaving. The steps are arbitrary functions, so the
    rule says nothing about how a thread finds its cells; that is part of the
    invariant it keeps.
-/

open Transitions

namespace Ownership

variable {ι σ α A V : Type}

/-- The state of each thread, and the store they share. -/
structure State (ι σ A V : Type) where
  threads : ι → σ
  store : A → V

/-- What a thread does for one of its actions, where it can take it. -/
abbrev Exec (σ α A V : Type) : Type := α → σ → (A → V) → Option (σ × (A → V))

/-- All interleavings of the threads, one action at a time. -/
def system [DecidableEq ι] (init : State ι σ A V → Prop) (exec : ι → Exec σ α A V) :
    System (State ι σ A V) (ι × α) where
  init := init
  step s a s' := ∃ t m, exec a.1 a.2 (s.threads a.1) s.store = some (t, m) ∧
    s' = ⟨Function.update s.threads a.1 t, m⟩

/-- What makes an invariant of the single threads hold of all of them. -/
structure Contract (exec : ι → Exec σ α A V) (admits : ι → α → Prop) (owns : ι → A → Prop)
    (inv : ι → σ → (A → V) → Prop) : Prop where
  /-- A thread's own steps keep its invariant. -/
  keeps : ∀ i a t m t' m', inv i t m → admits i a → exec i a t m = some (t', m') → inv i t' m'
  /-- A thread writes to its own cells only. -/
  frame : ∀ i a t m t' m', inv i t m → admits i a → exec i a t m = some (t', m') →
    ∀ b, ¬ owns i b → m' b = m b
  /-- A thread's invariant is about its own cells and the constants. -/
  stable : ∀ i t m m', inv i t m → (∀ b, (∀ j, j ≠ i → ¬ owns j b) → m' b = m b) → inv i t m'

section rule
variable [DecidableEq ι] {init : State ι σ A V → Prop} {exec : ι → Exec σ α A V}
  {admits : ι → α → Prop} {owns : ι → A → Prop} {inv : ι → σ → (A → V) → Prop}

/-- **Step lemma**: a step of one thread keeps the invariants of all. -/
theorem Contract.step (h : Contract exec admits owns inv) {s s' : State ι σ A V} {a : ι × α}
    (hinv : ∀ i, inv i (s.threads i) s.store) (hadmits : admits a.1 a.2)
    (hstep : (system init exec).step s a s') : ∀ i, inv i (s'.threads i) s'.store := by
  obtain ⟨t, m, hexec, rfl⟩ := hstep
  intro i
  by_cases hi : i = a.1
  · -- the thread that runs
    subst hi
    simp only [Function.update_self]
    exact h.keeps a.1 a.2 _ _ t m (hinv a.1) hadmits hexec
  · -- any other thread sees a change in cells that are not its own
    simp only [Function.update_of_ne hi]
    apply h.stable i _ s.store m (hinv i)
    intro b hb
    exact h.frame a.1 a.2 _ _ t m (hinv a.1) hadmits hexec b (hb a.1 (Ne.symm hi))

/-- **Ownership rule**. -/
theorem Contract.invariant (h : Contract exec admits owns inv)
    (hinit : ∀ s, init s → ∀ i, inv i (s.threads i) s.store) {s : State ι σ A V}
    (hreach : ReachableWhile (system init exec) (fun _ a => admits a.1 a.2) s) (i : ι) :
    inv i (s.threads i) s.store := by
  have hall := hreach.invariant (fun s => ∀ i, inv i (s.threads i) s.store) hinit
    fun s a s' hinv hadmits hstep => h.step hinv hadmits hstep
  exact hall i

end rule

end Ownership
