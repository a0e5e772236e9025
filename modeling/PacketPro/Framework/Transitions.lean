import Mathlib.Algebra.BigOperators.Group.Finset.Basic

/-! # Labelled Transition Systems

    States, labelled steps, and the states that are reached when every step of
    a run meets a condition. The condition may look at the state before the
    step and at its label, so it can exclude schedules without changing the
    system itself.

    * `ReachableWhile.invariant` is the rule for safety properties: what holds
      at the start and is kept by every admitted step holds in every state.
    * `Reachable` is the case without a condition.
    * `run` is the case of a function: each step returns an output, and a run
      the list of them. `run_simulates` is the rule for two such machines of
      which one forgets a part of the other's state.
    * `sum_update_of_mem` takes one component of many out of a sum, when that
      component has moved.
-/

namespace Transitions

variable {σ α : Type}

structure System (σ α : Type) where
  init : σ → Prop
  step : σ → α → σ → Prop

/-- Reached by a run whose steps all meet `admits`. -/
inductive ReachableWhile (sys : System σ α) (admits : σ → α → Prop) : σ → Prop where
  | init {s : σ} (hinit : sys.init s) : ReachableWhile sys admits s
  | step {s s' : σ} {a : α} (hreach : ReachableWhile sys admits s) (hadmits : admits s a)
      (hstep : sys.step s a s') : ReachableWhile sys admits s'

/-- Reached by any run. -/
def Reachable (sys : System σ α) : σ → Prop := ReachableWhile sys fun _ _ => True

section rules
variable {sys : System σ α} {admits : σ → α → Prop}

/-- **Invariant rule**. -/
theorem ReachableWhile.invariant (inv : σ → Prop) (hinit : ∀ s, sys.init s → inv s)
    (hkeep : ∀ s a s', inv s → admits s a → sys.step s a s' → inv s') {s : σ}
    (h : ReachableWhile sys admits s) : inv s := by
  induction h with
  | init hs => exact hinit _ hs
  | step _ hadmits hstep ih => exact hkeep _ _ _ ih hadmits hstep

theorem Reachable.init {s : σ} (h : sys.init s) : Reachable sys s := ReachableWhile.init h

theorem Reachable.step {s s' : σ} {a : α} (h : Reachable sys s) (hstep : sys.step s a s') :
    Reachable sys s' :=
  ReachableWhile.step h trivial hstep

end rules

section machines
variable {τ ρ : Type}

/-- Take one step for each input, and collect the outputs. -/
def run (step : σ → α → ρ × σ) : List α → σ → List ρ × σ
  | [], s => ([], s)
  | a :: as, s =>
    let (r, s) := step s a
    let (rs, s) := run step as s
    (r :: rs, s)

/-- **Simulation rule**: if forgetting commutes with every step, it commutes
    with every run, and the outputs are the same. -/
theorem run_simulates {step : σ → α → ρ × σ} {step' : τ → α → ρ × τ} (forget : σ → τ)
    (hstep : ∀ s a, step' (forget s) a = ((step s a).1, forget (step s a).2))
    (as : List α) (s : σ) :
    run step' as (forget s) = ((run step as s).1, forget (run step as s).2) := by
  induction as generalizing s with
  | nil => rfl
  | cons a as ih => simp only [run, hstep, ih]

end machines

section components
variable {ι M : Type} [DecidableEq ι] [AddCommMonoid M]

theorem sum_update_of_mem {s : Finset ι} {i : ι} (hi : i ∈ s) (f : ι → σ → M) (parts : ι → σ)
    (t : σ) :
    ∑ j ∈ s, f j (Function.update parts i t j) = f i t + ∑ j ∈ s.erase i, f j (parts j) := by
  rw [← Finset.add_sum_erase s _ hi, Function.update_self]
  congr 1
  apply Finset.sum_congr rfl
  intro j hj
  rw [Function.update_of_ne (Finset.ne_of_mem_erase hj)]

end components

end Transitions
