import Mathlib.Data.List.Basic
import Mathlib.Data.List.Perm.Basic

/-! # Batching Queues

    An abstract model of a component that collects elements one at a time and
    passes them on in batches. It does not say when a batch is passed on (a
    full buffer, a time-out): each `push` carries that decision.

    * **Conservation**: the batches passed on, followed by what is still held,
      are the elements pushed, in order (`given_push`).
    * **Partial acceptance**: the receiver of a batch may take only a first
      part of it. `owned` and `rejected` split the delivered elements, and
      nothing is rejected exactly when every batch was taken whole.
    * **Forgetful hand-over**: an `Outbox` forgets a batch once it is handed
      over. It accounts for everything it was given exactly when every batch
      was taken whole (`Outbox.Pushes.accounted_iff`).
-/

namespace Batching

variable {α : Type}

/-! ## Section 1: The queue -/

/-- The batches passed on so far, oldest first, and the elements held. -/
structure Queue (α : Type) where
  flushed : List (List α)
  held : List α

def Queue.empty : Queue α := ⟨[], []⟩

/-- Add one element; with `flush` everything held is passed on as a batch. -/
def Queue.push (q : Queue α) (x : α) (flush : Bool) : Queue α :=
  if flush then ⟨q.flushed ++ [q.held ++ [x]], []⟩ else ⟨q.flushed, q.held ++ [x]⟩

/-- What the queue has been given: the batches, then the held elements. -/
def Queue.given (q : Queue α) : List α := q.flushed.flatten ++ q.held

/-- **Conservation, one step**: a push adds its element at the end. -/
@[simp] theorem given_push (q : Queue α) (x : α) (flush : Bool) :
    (q.push x flush).given = q.given ++ [x] := by
  cases flush <;> simp [Queue.push, Queue.given]

/-- A push that flushes when the `n`-th element arrives. -/
def Queue.pushFull (n : Nat) (q : Queue α) (x : α) : Queue α :=
  q.push x (decide (q.held.length + 1 = n))

theorem held_pushFull (n : Nat) (q : Queue α) (x : α) :
    (q.pushFull n x).held = if q.held.length + 1 = n then [] else q.held ++ [x] := by
  by_cases hfull : q.held.length + 1 = n <;> simp [Queue.pushFull, Queue.push, hfull]

theorem flushed_pushFull (n : Nat) (q : Queue α) (x : α) :
    (q.pushFull n x).flushed =
      if q.held.length + 1 = n then q.flushed ++ [q.held ++ [x]] else q.flushed := by
  by_cases hfull : q.held.length + 1 = n <;> simp [Queue.pushFull, Queue.push, hfull]

@[simp] theorem given_pushFull (n : Nat) (q : Queue α) (x : α) :
    (q.pushFull n x).given = q.given ++ [x] :=
  given_push q x _

/-- Every batch has exactly `n` elements and fewer than `n` are held: the
    shape kept by a queue that flushes when its `n`-th element arrives. -/
def Queue.Exact (n : Nat) (q : Queue α) : Prop :=
  (∀ b ∈ q.flushed, b.length = n) ∧ q.held.length < n

theorem exact_empty {n : Nat} (hn : 0 < n) : (Queue.empty : Queue α).Exact n :=
  ⟨by simp [Queue.empty], hn⟩

theorem Queue.Exact.pushFull {n : Nat} {q : Queue α} (h : q.Exact n) (x : α) :
    (q.pushFull n x).Exact n := by
  obtain ⟨hb, hlen⟩ := h
  unfold Queue.Exact
  rw [held_pushFull, flushed_pushFull]
  by_cases hfull : q.held.length + 1 = n
  · rw [if_pos hfull, if_pos hfull]
    refine ⟨?_, by simp; omega⟩
    intro b hmem
    rcases List.mem_append.mp hmem with hold | hnew
    · exact hb b hold
    · rw [List.mem_singleton.mp hnew]
      simpa using hfull
  · rw [if_neg hfull, if_neg hfull]
    exact ⟨hb, by simp; omega⟩

/-- Such a queue has passed on as many whole batches as it was given. -/
theorem Queue.Exact.flatten_flushed {n : Nat} {q : Queue α} (h : q.Exact n) :
    q.flushed.flatten = q.given.take (n * (q.given.length / n)) := by
  obtain ⟨hbatches, hheld⟩ := h
  have hflat : q.flushed.flatten.length = n * q.flushed.length := by
    have hsizes : q.flushed.map List.length = q.flushed.map fun _ => n :=
      List.map_congr_left hbatches
    rw [List.length_flatten, hsizes, List.map_const', List.sum_replicate_nat, Nat.mul_comm]
  -- the elements held are the remainder of the division
  have hcount : q.given.length / n = q.flushed.length := by
    rw [Queue.given, List.length_append, hflat, Nat.mul_add_div (by omega),
      Nat.div_eq_of_lt hheld, Nat.add_zero]
  rw [hcount, ← hflat, Queue.given, List.take_left]

/-! ## Section 2: Partial acceptance -/

/-- A batch as handed over, and how many of its first elements were taken. -/
structure Delivery (α : Type) where
  batch : List α
  taken : Nat

/-- The elements the receiver has taken over. -/
def owned (ds : List (Delivery α)) : List α := ds.flatMap fun d => d.batch.take d.taken

/-- The elements that were handed over and not taken. -/
def rejected (ds : List (Delivery α)) : List α := ds.flatMap fun d => d.batch.drop d.taken

/-- Everything handed over, in order. -/
def presented (ds : List (Delivery α)) : List α := (ds.map Delivery.batch).flatten

@[simp] theorem owned_append (ds es : List (Delivery α)) :
    owned (ds ++ es) = owned ds ++ owned es := by
  simp [owned]

@[simp] theorem presented_append (ds es : List (Delivery α)) :
    presented (ds ++ es) = presented ds ++ presented es := by
  simp [presented]

/-- Every element handed over is either taken or rejected. -/
theorem owned_append_rejected_perm (ds : List (Delivery α)) :
    (owned ds ++ rejected ds).Perm (presented ds) := by
  induction ds with
  | nil => exact List.Perm.refl _
  | cons d ds ih =>
    have hd : (owned [d] ++ rejected [d]).Perm (presented [d]) := by
      simp [owned, rejected, presented]
    have hsplit : owned (d :: ds) ++ rejected (d :: ds) =
        owned [d] ++ owned ds ++ (rejected [d] ++ rejected ds) := by
      simp [owned, rejected]
    rw [hsplit, show presented (d :: ds) = presented [d] ++ presented ds from by simp [presented]]
    -- swap the two middle blocks, then use the head and the tail separately
    have hswap : (owned [d] ++ owned ds ++ (rejected [d] ++ rejected ds)).Perm
        (owned [d] ++ rejected [d] ++ (owned ds ++ rejected ds)) := by
      simp only [List.append_assoc]
      apply List.Perm.append_left
      simp only [← List.append_assoc]
      exact (List.perm_append_comm).append_right _
    exact hswap.trans (hd.append ih)

/-- Nothing is rejected exactly when every batch was taken whole. -/
theorem rejected_eq_nil_iff (ds : List (Delivery α)) :
    rejected ds = [] ↔ ∀ d ∈ ds, d.batch.length ≤ d.taken := by
  simp [rejected, List.flatMap_eq_nil_iff, List.drop_eq_nil_iff]

theorem owned_length_add_rejected_length (ds : List (Delivery α)) :
    (owned ds).length + (rejected ds).length = (presented ds).length := by
  rw [← List.length_append]
  exact (owned_append_rejected_perm ds).length_eq

/-! ## Section 3: Forgetful hand-over -/

/-- The elements held, and the batches handed over so far. -/
structure Outbox (α : Type) where
  held : List α
  deliveries : List (Delivery α)

namespace Outbox

/-- One more element: it waits, or it goes out with everything held. The
    outbox is empty afterwards, whatever the receiver answers; `legal k` says
    how it may answer the `k`-th batch. -/
inductive Push (legal : Nat → Delivery α → Prop) (x : α) : Outbox α → Outbox α → Prop where
  | wait (held : List α) (ds : List (Delivery α)) : Push legal x ⟨held, ds⟩ ⟨held ++ [x], ds⟩
  | deliver (held : List α) (ds : List (Delivery α)) (taken : Nat)
      (hlegal : legal ds.length ⟨held ++ [x], taken⟩) :
      Push legal x ⟨held, ds⟩ ⟨[], ds ++ [⟨held ++ [x], taken⟩]⟩

/-- A run: one push for each element. -/
inductive Pushes (legal : Nat → Delivery α → Prop) : List α → Outbox α → Outbox α → Prop where
  | nil (o : Outbox α) : Pushes legal [] o o
  | cons {x : α} {xs : List α} {o o₁ o' : Outbox α} (hpush : Push legal x o o₁)
      (hrest : Pushes legal xs o₁ o') : Pushes legal (x :: xs) o o'

/-- What has been handed over, then what is held. -/
def given (o : Outbox α) : List α := presented o.deliveries ++ o.held

/-- Each delivery is one that the receiver may make at its place. -/
def Legal (legal : Nat → Delivery α → Prop) (o : Outbox α) : Prop :=
  ∀ k d, o.deliveries[k]? = some d → legal k d

section run
variable {legal : Nat → Delivery α → Prop} {o o' : Outbox α}

/-- **Step lemma**: a push adds its element to what was given, keeps the
    deliveries made before, and adds at most one legal delivery. -/
theorem Push.spec {x : α} (h : Push legal x o o') :
    o'.given = o.given ++ [x] ∧ (o.Legal legal → o'.Legal legal) ∧
    o.deliveries <+: o'.deliveries := by
  cases h with
  | wait held ds =>
    exact ⟨by simp [given], fun hds => hds, List.prefix_refl ds⟩
  | deliver held ds taken hlegal =>
    refine ⟨by simp [given, presented], ?_, List.prefix_append _ _⟩
    intro hds k d hd
    -- a delivery made before, or the one made now
    rcases Nat.lt_or_ge k ds.length with hold | hnew
    · rw [List.getElem?_append_left hold] at hd
      exact hds k d hd
    · rw [List.getElem?_append_right hnew, List.getElem?_singleton] at hd
      split at hd
      · obtain rfl : k = ds.length := by omega
        rw [← Option.some.inj hd]
        exact hlegal
      · exact absurd hd nofun

/-- **Run lemma**: the same over a run. -/
theorem Pushes.spec {xs : List α} (h : Pushes legal xs o o') :
    o'.given = o.given ++ xs ∧ (o.Legal legal → o'.Legal legal) ∧
    o.deliveries <+: o'.deliveries := by
  induction h with
  | nil o => exact ⟨by simp, fun hds => hds, List.prefix_refl _⟩
  | cons hpush _ ih =>
    obtain ⟨hgiven, hlegal, hprefix⟩ := hpush.spec
    obtain ⟨hgiven', hlegal', hprefix'⟩ := ih
    refine ⟨?_, fun hds => hlegal' (hlegal hds), hprefix.trans hprefix'⟩
    rw [hgiven', hgiven]
    simp

/-- Starting empty, the deliveries and what is held are what was pushed, and
    every delivery is legal. -/
theorem Pushes.spec_empty {xs : List α} (h : Pushes legal xs ⟨[], []⟩ o) :
    presented o.deliveries ++ o.held = xs ∧ o.Legal legal := by
  obtain ⟨hgiven, hlegal, -⟩ := h.spec
  refine ⟨by simpa [given, presented] using hgiven, hlegal ?_⟩
  intro k d hd
  exact absurd hd nofun

/-- **Main**: starting empty, an outbox accounts for everything it was given
    exactly when every batch was taken whole. -/
theorem Pushes.accounted_iff {xs : List α} (h : Pushes legal xs ⟨[], []⟩ o)
    (hbound : ∀ k d, legal k d → d.taken ≤ d.batch.length) :
    xs.Subperm (owned o.deliveries ++ o.held) ↔
      ∀ d ∈ o.deliveries, d.taken = d.batch.length := by
  obtain ⟨hxs, hlegal⟩ := h.spec_empty
  constructor
  · -- a rejected element would make the account too short
    intro hsub d hd
    have hle := hsub.length_le
    rw [← hxs] at hle
    have hsplit := owned_length_add_rejected_length o.deliveries
    have hnone : rejected o.deliveries = [] := by
      apply List.eq_nil_of_length_eq_zero
      simp only [List.length_append] at hle
      omega
    obtain ⟨k, hk⟩ := List.mem_iff_getElem?.mp hd
    exact Nat.le_antisymm (hbound k d (hlegal k d hk)) ((rejected_eq_nil_iff _).mp hnone d hd)
  · intro hall
    have hnone : rejected o.deliveries = [] :=
      (rejected_eq_nil_iff _).mpr fun d hd => Nat.le_of_eq (hall d hd).symm
    have hperm := owned_append_rejected_perm o.deliveries
    rw [hnone, List.append_nil] at hperm
    rw [← hxs]
    exact (hperm.symm.append_right o.held).subperm

/-- When the answers are determined, whether every batch was taken whole is a
    question about the sizes of the batches alone. -/
theorem Legal.tookAll_iff {a : Nat → Nat → Nat}
    (h : o.Legal fun k d => d.taken = a k d.batch.length) :
    (∀ d ∈ o.deliveries, d.taken = d.batch.length) ↔
      ∀ k n, (o.deliveries.map fun d => d.batch.length)[k]? = some n → a k n = n := by
  constructor
  · intro hall k n hn
    rw [List.getElem?_map] at hn
    obtain ⟨d, hd, rfl⟩ := Option.map_eq_some_iff.mp hn
    rw [← h k d hd]
    exact hall d (List.mem_iff_getElem?.mpr ⟨k, hd⟩)
  · intro hall d hd
    obtain ⟨k, hk⟩ := List.mem_iff_getElem?.mp hd
    rw [h k d hk]
    apply hall k
    rw [List.getElem?_map, hk]
    rfl

end run

end Outbox

end Batching
