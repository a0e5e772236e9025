import Mathlib.Algebra.BigOperators.Group.Finset.Basic
import PacketPro.Framework.Transitions

/-! # Meters

    A meter counts the same events twice: since it was made, and since it was
    last read. A collector knows some of the meters. From time to time it adds
    their recent counts to a total and resets them.

    `Collector.Balanced` is the law of this bookkeeping: the total and the
    recent counts of the known meters make up all they have counted. A meter
    may be enrolled at any time, because one that is not enrolled has never
    been reset.

    A counter that cannot be reset is sampled instead: each sample is compared
    with the one before it. `sum_differences` says that the differences add up
    to the last sample, in any group, so also for counters that wrap around.
-/

namespace Meters

variable {ι A : Type} [DecidableEq ι] [AddCommMonoid A]

/-- What a meter has counted, since it was made and since it was last read. -/
structure Meter (A : Type) where
  all : A
  interval : A

@[ext] structure Collector (ι A : Type) where
  meter : ι → Meter A
  enrolled : Finset ι
  total : A

namespace Collector

/-- The meter `i` counts `x`. -/
def count (c : Collector ι A) (i : ι) (x : A) : Collector ι A :=
  { c with meter := Function.update c.meter i ⟨(c.meter i).all + x, (c.meter i).interval + x⟩ }

/-- More meters become known. -/
def enroll (c : Collector ι A) (is : Finset ι) : Collector ι A :=
  { c with enrolled := c.enrolled ∪ is }

/-- The known meters are read and reset. -/
def collect (c : Collector ι A) : Collector ι A where
  meter i := if i ∈ c.enrolled then ⟨(c.meter i).all, 0⟩ else c.meter i
  enrolled := c.enrolled
  total := c.total + ∑ i ∈ c.enrolled, (c.meter i).interval

/-- What can happen to a collector and its meters in one step. -/
inductive Step : Collector ι A → Collector ι A → Prop where
  | count (c : Collector ι A) (i : ι) (x : A) : Step c (c.count i x)
  | enroll (c : Collector ι A) (is : Finset ι) : Step c (c.enroll is)
  | collect (c : Collector ι A) : Step c c.collect

/-- The total and the recent counts of the known meters are all that these
    have counted, and no other meter was ever reset. -/
structure Balanced (c : Collector ι A) : Prop where
  total : c.total + ∑ i ∈ c.enrolled, (c.meter i).interval = ∑ i ∈ c.enrolled, (c.meter i).all
  untouched : ∀ i ∉ c.enrolled, (c.meter i).interval = (c.meter i).all

/-! ## The law is kept -/

theorem Balanced.count {c : Collector ι A} (h : c.Balanced) (i : ι) (x : A) :
    (c.count i x).Balanced := by
  constructor
  · by_cases hi : i ∈ c.enrolled
    · have htotal := h.total
      rw [← Finset.add_sum_erase _ _ hi, ← Finset.add_sum_erase _ _ hi] at htotal
      show c.total + ∑ j ∈ c.enrolled, (Function.update c.meter i _ j).interval =
        ∑ j ∈ c.enrolled, (Function.update c.meter i _ j).all
      rw [Transitions.sum_update_of_mem hi fun _ => Meter.interval,
        Transitions.sum_update_of_mem hi fun _ => Meter.all]
      generalize ∑ j ∈ c.enrolled.erase i, (c.meter j).interval = recent at htotal ⊢
      generalize ∑ j ∈ c.enrolled.erase i, (c.meter j).all = ever at htotal ⊢
      -- both sides grow by `x`
      calc c.total + ((c.meter i).interval + x + recent)
          = c.total + ((c.meter i).interval + recent) + x := by
            rw [add_right_comm (c.meter i).interval x, ← add_assoc c.total]
        _ = (c.meter i).all + ever + x := by rw [htotal]
        _ = (c.meter i).all + x + ever := add_right_comm _ _ _
    · have hsame : ∀ g : Meter A → A,
          ∑ j ∈ c.enrolled, g ((c.count i x).meter j) = ∑ j ∈ c.enrolled, g (c.meter j) := by
        intro g
        apply Finset.sum_congr rfl
        intro j hj
        have hne : j ≠ i := fun heq => hi (heq ▸ hj)
        exact congrArg g (Function.update_of_ne hne _ _)
      show c.total + ∑ j ∈ c.enrolled, ((c.count i x).meter j).interval =
        ∑ j ∈ c.enrolled, ((c.count i x).meter j).all
      rw [hsame Meter.interval, hsame Meter.all]
      exact h.total
  · intro j hj
    by_cases hji : j = i
    · subst hji
      simp only [Collector.count, Function.update_self, h.untouched j hj]
    · simp only [Collector.count, Function.update_of_ne hji]
      exact h.untouched j hj

/-- The meters that become known have not been reset yet. -/
theorem Balanced.enroll {c : Collector ι A} (h : c.Balanced) (is : Finset ι) :
    (c.enroll is).Balanced := by
  constructor
  · have hdisj : Disjoint c.enrolled (is \ c.enrolled) := Finset.disjoint_sdiff
    -- a meter that was not enrolled has never been read
    have hnew : ∑ i ∈ is \ c.enrolled, (c.meter i).interval =
        ∑ i ∈ is \ c.enrolled, (c.meter i).all := by
      apply Finset.sum_congr rfl
      intro i hi
      exact h.untouched i (Finset.mem_sdiff.mp hi).2
    show c.total + ∑ i ∈ c.enrolled ∪ is, (c.meter i).interval =
      ∑ i ∈ c.enrolled ∪ is, (c.meter i).all
    rw [← Finset.union_sdiff_self_eq_union, Finset.sum_union hdisj, Finset.sum_union hdisj,
      ← add_assoc, h.total, hnew]
  · intro i hi
    exact h.untouched i fun hmem => hi (Finset.mem_union_left _ hmem)

theorem Balanced.collect {c : Collector ι A} (h : c.Balanced) : c.collect.Balanced := by
  constructor
  · have hinterval : ∑ i ∈ c.enrolled, (c.collect.meter i).interval = 0 := by
      apply Finset.sum_eq_zero
      intro i hi
      simp only [Collector.collect, if_pos hi]
    have hall : ∑ i ∈ c.enrolled, (c.collect.meter i).all = ∑ i ∈ c.enrolled, (c.meter i).all := by
      apply Finset.sum_congr rfl
      intro i hi
      simp only [Collector.collect, if_pos hi]
    -- what the intervals lose, the total gains
    show c.total + ∑ i ∈ c.enrolled, (c.meter i).interval +
      ∑ i ∈ c.enrolled, (c.collect.meter i).interval = ∑ i ∈ c.enrolled, (c.collect.meter i).all
    rw [hinterval, hall, add_zero]
    exact h.total
  · intro i hi
    have hi' : i ∉ c.enrolled := hi
    simp only [Collector.collect, if_neg hi']
    exact h.untouched i hi'

/-- **Step lemma**: the books stay balanced. -/
theorem Balanced.step {c c' : Collector ι A} (h : c.Balanced) (hstep : Step c c') :
    c'.Balanced := by
  cases hstep with
  | count i x => exact h.count i x
  | enroll is => exact h.enroll is
  | collect => exact h.collect

end Collector

/-! ## Sampled counters -/

section sampling
variable {G : Type} [AddCommGroup G]

/-- Each sample less the one before it, starting from `p`. -/
def differences : G → List G → List G
  | _, [] => []
  | p, x :: xs => (x - p) :: differences x xs

/-- The differences add up to the whole way from the first to the last. -/
theorem sum_differences (p : G) (xs : List G) :
    (differences p xs).sum = xs.getLastD p - p := by
  induction xs generalizing p with
  | nil => exact (sub_self p).symm
  | cons x xs ih =>
    rw [differences, List.sum_cons, ih, List.getLastD_cons, add_comm]
    exact sub_add_sub_cancel _ _ _

end sampling

end Meters
