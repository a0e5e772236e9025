import PacketPro.Framework.Transitions
import Mathlib.Logic.Function.Basic
import Mathlib.Data.List.Basic
import Mathlib.Algebra.Ring.Nat

/-! # Queues by Reservation

    A bounded queue that many threads use at once without a lock. A thread that
    puts items first claims as many positions behind all claims so far, then
    fills them one by one, and publishes them when all positions in front of
    its own are published. A thread that gets items does the same at the other
    end: it reserves published positions, reads them one by one, and releases
    them in order. Positions count from the start and never wrap around; the
    position `k` lives in the slot `k % size`.

    In every interleaving the items released are a first part of the items
    published, which are a first part of the items claimed (`Sound.step`). So
    publications and releases are the events of a first-in first-out queue
    (`Sound.contents_publish`, `Sound.contents_release`), and no item is lost,
    invented, repeated or overtaken.

    The invariant says that each thread's positions are its own: claims do not
    overlap, and the slots of a claim are not in use by anyone else because all
    positions in use lie within `size` of each other.
-/

open Transitions

namespace Reservation

variable {ι α : Type}

/-! ## Section 1: The protocol -/

/-- What a thread is doing. -/
inductive Role (α : Type) where
  | idle
  /-- It fills the positions from `start` on with `items`, `done` of them so far. -/
  | put (start : Nat) (items : List α) (done : Nat)
  /-- It reads `count` positions from `start` on, and has read `items`. -/
  | get (start count : Nat) (items : List α)

structure State (ι α : Type) where
  slots : Nat → α
  /-- The items of all claims, in the order of the claims. -/
  claimed : List α
  /-- The items published, in the order of publication. -/
  published : List α
  /-- How many positions are reserved. -/
  reserved : Nat
  /-- The items released, in the order of release. -/
  consumed : List α
  role : ι → Role α

section steps
variable [DecidableEq ι]

/-- The steps of the threads over a store of `size` slots. -/
inductive Step (size : Nat) : State ι α → State ι α → Prop where
  | claim {s : State ι α} (i : ι) {items : List α} (hidle : s.role i = .idle)
      (hsome : items ≠ [])
      (hroom : s.claimed.length + items.length < s.consumed.length + size) :
      Step size s { s with
        claimed := s.claimed ++ items
        role := Function.update s.role i (.put s.claimed.length items 0) }
  | fill {s : State ι α} (i : ι) {start done : Nat} {items : List α} {x : α}
      (hrole : s.role i = .put start items done) (hitem : items[done]? = some x) :
      Step size s { s with
        slots := Function.update s.slots ((start + done) % size) x
        role := Function.update s.role i (.put start items (done + 1)) }
  | publish {s : State ι α} (i : ι) {start : Nat} {items : List α}
      (hrole : s.role i = .put start items items.length)
      (hturn : start = s.published.length) :
      Step size s { s with
        published := s.published ++ items
        role := Function.update s.role i .idle }
  | reserve {s : State ι α} (i : ι) {count : Nat} (hidle : s.role i = .idle)
      (hsome : 0 < count)
      (hroom : s.reserved + count ≤ s.published.length) :
      Step size s { s with
        reserved := s.reserved + count
        role := Function.update s.role i (.get s.reserved count []) }
  | read {s : State ι α} (i : ι) {start count : Nat} {items : List α}
      (hrole : s.role i = .get start count items) (hmore : items.length < count) :
      Step size s { s with
        role := Function.update s.role i
          (.get start count (items ++ [s.slots ((start + items.length) % size)])) }
  | release {s : State ι α} (i : ι) {start count : Nat} {items : List α}
      (hrole : s.role i = .get start count items) (hall : items.length = count)
      (hturn : start = s.consumed.length) :
      Step size s { s with
        consumed := s.consumed ++ items
        role := Function.update s.role i .idle }

end steps

/-- A store with nothing in it. -/
def State.empty (slots : Nat → α) : State ι α where
  slots := slots
  claimed := []
  published := []
  reserved := 0
  consumed := []
  role _ := .idle

/-! ## Section 2: The invariant -/

/-- A thread's claim is part of all claims, it is not published yet, and what
    has been filled is in the slots. -/
structure PutSound (size : Nat) (s : State ι α) (start : Nat) (items : List α) (done : Nat) :
    Prop where
  nonempty : items ≠ []
  filled : done ≤ items.length
  fits : start + items.length ≤ s.claimed.length
  item : ∀ j < items.length, s.claimed[start + j]? = items[j]?
  pending : s.published.length ≤ start
  slot : ∀ j < done, items[j]? = some (s.slots ((start + j) % size))

/-- A thread's reservation is not released yet, and what it has read are the
    items claimed for these positions. -/
structure GetSound (s : State ι α) (start count : Nat) (items : List α) : Prop where
  nonempty : 0 < count
  length : items.length ≤ count
  fits : start + count ≤ s.reserved
  pending : s.consumed.length ≤ start
  item : ∀ j < items.length, s.claimed[start + j]? = items[j]?

/-- The claims of different threads do not overlap. -/
def PutsApart (role : ι → Role α) : Prop :=
  ∀ i j start items done start' items' done', i ≠ j →
    role i = .put start items done → role j = .put start' items' done' →
    start + items.length ≤ start' ∨ start' + items'.length ≤ start

/-- The reservations of different threads do not overlap. -/
def GetsApart (role : ι → Role α) : Prop :=
  ∀ i j start count items start' count' items', i ≠ j →
    role i = .get start count items → role j = .get start' count' items' →
    start + count ≤ start' ∨ start' + count' ≤ start

structure Sound (size : Nat) (s : State ι α) : Prop where
  published : s.published <+: s.claimed
  consumed : s.consumed <+: s.claimed
  reserved_ge : s.consumed.length ≤ s.reserved
  reserved_le : s.reserved ≤ s.published.length
  room : s.claimed.length < s.consumed.length + size
  slot : ∀ k, s.consumed.length ≤ k → k < s.published.length →
    s.claimed[k]? = some (s.slots (k % size))
  puts : ∀ i start items done, s.role i = .put start items done →
    PutSound size s start items done
  gets : ∀ i start count items, s.role i = .get start count items →
    GetSound s start count items
  putsApart : PutsApart s.role
  getsApart : GetsApart s.role

section rules
variable {size : Nat} {s : State ι α}

theorem Sound.published_le (h : Sound size s) : s.published.length ≤ s.claimed.length :=
  h.published.length_le

theorem empty_sound (hsize : 0 < size) (slots : Nat → α) :
    Sound size (State.empty slots : State ι α) where
  published := List.prefix_refl _
  consumed := List.prefix_refl _
  reserved_ge := Nat.le_refl _
  reserved_le := Nat.le_refl _
  room := by simpa [State.empty] using hsize
  slot k _ hk := absurd hk (Nat.not_lt_zero k)
  puts _ _ _ _ h := by cases h
  gets _ _ _ _ h := by cases h
  putsApart _ _ _ _ _ _ _ _ _ h := by cases h
  getsApart _ _ _ _ _ _ _ _ _ h := by cases h

/-- Positions in use lie in one window, where different positions have
    different slots. -/
theorem mod_ne_of_window {a b low : Nat} (ha : low ≤ a) (ha' : a < low + size)
    (hb : low ≤ b) (hb' : b < low + size) (hne : a ≠ b) : a % size ≠ b % size := by
  intro heq
  rcases Nat.lt_or_gt_of_ne hne with hlt | hgt
  · have hzero := Nat.sub_mod_eq_zero_of_mod_eq heq.symm
    have := Nat.le_of_dvd (by omega) (Nat.dvd_of_mod_eq_zero hzero)
    omega
  · have hzero := Nat.sub_mod_eq_zero_of_mod_eq heq
    have := Nat.le_of_dvd (by omega) (Nat.dvd_of_mod_eq_zero hzero)
    omega

/-- What a thread does after one thread has changed its role. -/
theorem role_update [DecidableEq ι] {role : ι → Role α} {i j : ι} {r r' : Role α}
    (h : Function.update role i r j = r') : j = i ∧ r = r' ∨ j ≠ i ∧ role j = r' := by
  by_cases hji : j = i
  · subst hji
    rw [Function.update_self] at h
    exact Or.inl ⟨rfl, h⟩
  · rw [Function.update_of_ne hji] at h
    exact Or.inr ⟨hji, h⟩

/-- A thread that makes no new claim keeps the claims apart. -/
theorem PutsApart.update [DecidableEq ι] {role : ι → Role α} {i : ι} {r : Role α}
    (h : PutsApart role)
    (hold : ∀ start items done, r = .put start items done →
      ∃ done', role i = .put start items done') : PutsApart (Function.update role i r) := by
  have hold' : ∀ j start items done, Function.update role i r j = .put start items done →
      ∃ done', role j = .put start items done' := by
    intro j start items done hj
    rcases role_update hj with ⟨rfl, hnew⟩ | ⟨-, hrole⟩
    · exact hold start items done hnew
    · exact ⟨done, hrole⟩
  intro j j' start items done start' items' done' hne hj hj'
  obtain ⟨_, hrole⟩ := hold' j start items done hj
  obtain ⟨_, hrole'⟩ := hold' j' start' items' done' hj'
  exact h j j' _ _ _ _ _ _ hne hrole hrole'

/-- A thread that makes no new reservation keeps the reservations apart. -/
theorem GetsApart.update [DecidableEq ι] {role : ι → Role α} {i : ι} {r : Role α}
    (h : GetsApart role)
    (hold : ∀ start count items, r = .get start count items →
      ∃ items', role i = .get start count items') : GetsApart (Function.update role i r) := by
  have hold' : ∀ j start count items, Function.update role i r j = .get start count items →
      ∃ items', role j = .get start count items' := by
    intro j start count items hj
    rcases role_update hj with ⟨rfl, hnew⟩ | ⟨-, hrole⟩
    · exact hold start count items hnew
    · exact ⟨items, hrole⟩
  intro j j' start count items start' count' items' hne hj hj'
  obtain ⟨_, hrole⟩ := hold' j start count items hj
  obtain ⟨_, hrole'⟩ := hold' j' start' count' items' hj'
  exact h j j' _ _ _ _ _ _ hne hrole hrole'

theorem extend_first_part {front all items : List α} (h : front <+: all)
    (hitem : ∀ j < items.length, all[front.length + j]? = items[j]?) : front ++ items <+: all := by
  obtain ⟨rest, rfl⟩ := h
  rw [List.prefix_append_right_inj, List.prefix_iff_getElem?]
  intro j hj
  have hj' := hitem j hj
  rw [List.getElem?_append_right (Nat.le_add_right _ _), Nat.add_sub_cancel_left] at hj'
  rw [hj', List.getElem?_eq_getElem hj]

/-- No count goes back, and none moves by more than `size` at once. -/
structure Grows (size : Nat) (s s' : State ι α) : Prop where
  claimed : s.claimed.length ≤ s'.claimed.length
  claimed_le : s'.claimed.length ≤ s.claimed.length + size
  published : s.published.length ≤ s'.published.length
  reserved : s.reserved ≤ s'.reserved
  reserved_le : s'.reserved ≤ s.reserved + size
  consumed : s.consumed.length ≤ s'.consumed.length

theorem Grows.refl (size : Nat) (s : State ι α) : Grows size s s :=
  ⟨Nat.le_refl _, Nat.le_add_right .., Nat.le_refl _, Nat.le_refl _, Nat.le_add_right ..,
    Nat.le_refl _⟩

/-! ## Section 3: Putting -/

section put
variable [DecidableEq ι]

theorem Sound.claim (h : Sound size s) {i : ι} {items : List α} (hsome : items ≠ [])
    (hroom : s.claimed.length + items.length < s.consumed.length + size) :
    Sound size { s with
      claimed := s.claimed ++ items
      role := Function.update s.role i (.put s.claimed.length items 0) } := by
  have hle := h.published_le
  have hreserved := h.reserved_le
  -- what was claimed before stays where it is
  have hfront : ∀ k, k < s.claimed.length → (s.claimed ++ items)[k]? = s.claimed[k]? :=
    fun k hk => List.getElem?_append_left hk
  constructor
  · exact h.published.trans (List.prefix_append _ _)
  · exact h.consumed.trans (List.prefix_append _ _)
  · exact h.reserved_ge
  · exact h.reserved_le
  · simpa using hroom
  · intro k hk hk'
    exact (hfront k (Nat.lt_of_lt_of_le hk' hle)).trans (h.slot k hk hk')
  · intro j start items' done hj
    rcases role_update hj with ⟨-, hnew⟩ | ⟨-, hrole⟩
    · cases hnew
      refine ⟨hsome, Nat.zero_le _, by simp, ?_, hle, fun j hj => absurd hj (Nat.not_lt_zero j)⟩
      intro k _
      exact (List.getElem?_append_right (Nat.le_add_right _ _)).trans
        (by rw [Nat.add_sub_cancel_left])
    · have hput := h.puts j start items' done hrole
      have hfits := hput.fits
      refine ⟨hput.nonempty, hput.filled, ?_, ?_, hput.pending, hput.slot⟩
      · simp only [List.length_append]
        omega
      · intro k hk
        exact (hfront _ (by omega)).trans (hput.item k hk)
  · intro j start count items' hj
    rcases role_update hj with ⟨-, hnew⟩ | ⟨-, hrole⟩
    · cases hnew
    · have hget := h.gets j start count items' hrole
      have hfits := hget.fits
      have hlen := hget.length
      refine ⟨hget.nonempty, hget.length, hget.fits, hget.pending, ?_⟩
      intro k hk
      exact (hfront _ (by omega)).trans (hget.item k hk)
  · -- the other claims lie in front of the new one
    intro j j' start items₁ done start' items₂ done' hne hj hj'
    rcases role_update hj with ⟨hi, hnew⟩ | ⟨-, hrole⟩ <;>
      rcases role_update hj' with ⟨hi', hnew'⟩ | ⟨-, hrole'⟩
    · exact absurd (hi.trans hi'.symm) hne
    · cases hnew
      exact Or.inr (h.puts _ _ _ _ hrole').fits
    · cases hnew'
      exact Or.inl (h.puts _ _ _ _ hrole).fits
    · exact h.putsApart j j' _ _ _ _ _ _ hne hrole hrole'
  · exact h.getsApart.update (fun _ _ _ hnew => by cases hnew)

theorem Sound.fill (h : Sound size s) {i : ι} {start done : Nat} {items : List α} {x : α}
    (hrole : s.role i = .put start items done) (hitem : items[done]? = some x) :
    Sound size { s with
      slots := Function.update s.slots ((start + done) % size) x
      role := Function.update s.role i (.put start items (done + 1)) } := by
  have hle := h.published_le
  have hroom := h.room
  have hreserved := h.reserved_le
  have hge := h.reserved_ge
  have hput := h.puts i start items done hrole
  have hfits := hput.fits
  have hlt : done < items.length := (List.getElem?_eq_some_iff.mp hitem).1
  have hpending := hput.pending
  -- any other position in use has another slot
  have hother : ∀ k, s.consumed.length ≤ k → k < s.claimed.length → k ≠ start + done →
      Function.update s.slots ((start + done) % size) x (k % size) = s.slots (k % size) := by
    intro k hk hk' hne
    apply Function.update_of_ne
    exact mod_ne_of_window hk (by omega) (by omega) (by omega) hne
  constructor
  · exact h.published
  · exact h.consumed
  · exact h.reserved_ge
  · exact h.reserved_le
  · exact h.room
  · intro k hk hk'
    have hk'' : k < s.published.length := hk'
    exact (h.slot k hk hk').trans (congrArg some (hother k hk (by omega) (by omega)).symm)
  · intro j start' items' done' hj
    rcases role_update hj with ⟨-, hnew⟩ | ⟨hne, hrole'⟩
    · cases hnew
      refine ⟨hput.nonempty, hlt, hput.fits, hput.item, hput.pending, ?_⟩
      intro k hk
      by_cases hkd : k = done
      · subst hkd
        rw [hitem]
        simp only [Function.update_self]
      · exact (hput.slot k (by omega)).trans
          (congrArg some (hother _ (by omega) (by omega) (by omega)).symm)
    · -- another thread's claim, which does not overlap
      have hput' := h.puts j start' items' done' hrole'
      have hfilled := hput'.filled
      have hfits' := hput'.fits
      refine ⟨hput'.nonempty, hput'.filled, hput'.fits, hput'.item, hput'.pending, ?_⟩
      intro k hk
      have hpending' := hput'.pending
      have hapart := h.putsApart j i _ _ _ _ _ _ hne hrole' hrole
      exact (hput'.slot k hk).trans
        (congrArg some (hother _ (by omega) (by omega) (by omega)).symm)
  · intro j start' count items' hj
    rcases role_update hj with ⟨-, hnew⟩ | ⟨-, hrole'⟩
    · cases hnew
    · have hget := h.gets j start' count items' hrole'
      exact ⟨hget.nonempty, hget.length, hget.fits, hget.pending, hget.item⟩
  · apply h.putsApart.update
    intro _ _ _ hnew
    cases hnew
    exact ⟨done, hrole⟩
  · exact h.getsApart.update (fun _ _ _ hnew => by cases hnew)

/-- A claim is published when all positions in front of it are, so the items
    published stay a first part of the items claimed. -/
theorem Sound.publish (h : Sound size s) {i : ι} {start : Nat} {items : List α}
    (hrole : s.role i = .put start items items.length) (hturn : start = s.published.length) :
    Sound size { s with
      published := s.published ++ items
      role := Function.update s.role i .idle } := by
  subst hturn
  have hput := h.puts i _ items items.length hrole
  have hfits := hput.fits
  have hreserved := h.reserved_le
  have hnew : s.published ++ items <+: s.claimed := extend_first_part h.published hput.item
  constructor
  · exact hnew
  · exact h.consumed
  · exact h.reserved_ge
  · simp only [List.length_append]
    omega
  · exact h.room
  · intro k hk hk'
    simp only [List.length_append] at hk'
    by_cases hold : k < s.published.length
    · exact h.slot k hk hold
    · have hj : k - s.published.length < items.length := by omega
      have hk'' : k = s.published.length + (k - s.published.length) := by omega
      rw [hk'', hput.item _ hj, hput.slot _ hj]
  · intro j start' items' done' hj
    rcases role_update hj with ⟨-, hnew'⟩ | ⟨hne, hrole'⟩
    · cases hnew'
    · have hput' := h.puts j start' items' done' hrole'
      have hlen' := List.length_pos_iff.mpr hput'.nonempty
      have hpending := hput'.pending
      have hapart := h.putsApart j i _ _ _ _ _ _ hne hrole' hrole
      refine ⟨hput'.nonempty, hput'.filled, hput'.fits, hput'.item, ?_, hput'.slot⟩
      simp only [List.length_append]
      omega
  · intro j start' count items' hj
    rcases role_update hj with ⟨-, hnew'⟩ | ⟨-, hrole'⟩
    · cases hnew'
    · have hget := h.gets j start' count items' hrole'
      exact ⟨hget.nonempty, hget.length, hget.fits, hget.pending, hget.item⟩
  · exact h.putsApart.update (fun _ _ _ hnew => by cases hnew)
  · exact h.getsApart.update (fun _ _ _ hnew => by cases hnew)

end put

/-! ## Section 4: Getting -/

section get
variable [DecidableEq ι]

theorem Sound.reserve (h : Sound size s) {i : ι} {count : Nat} (hsome : 0 < count)
    (hroom : s.reserved + count ≤ s.published.length) :
    Sound size { s with
      reserved := s.reserved + count
      role := Function.update s.role i (.get s.reserved count []) } := by
  have hge := h.reserved_ge
  constructor
  · exact h.published
  · exact h.consumed
  · exact Nat.le_trans h.reserved_ge (Nat.le_add_right _ _)
  · exact hroom
  · exact h.room
  · exact h.slot
  · intro j start items done hj
    rcases role_update hj with ⟨-, hnew⟩ | ⟨-, hrole⟩
    · cases hnew
    · have hput := h.puts j start items done hrole
      exact ⟨hput.nonempty, hput.filled, hput.fits, hput.item, hput.pending, hput.slot⟩
  · intro j start count' items hj
    rcases role_update hj with ⟨-, hnew⟩ | ⟨-, hrole⟩
    · cases hnew
      exact ⟨hsome, Nat.zero_le _, Nat.le_refl _, hge, fun k hk => absurd hk (Nat.not_lt_zero k)⟩
    · have hget := h.gets j start count' items hrole
      exact ⟨hget.nonempty, hget.length, Nat.le_trans hget.fits (Nat.le_add_right _ _),
        hget.pending, hget.item⟩
  · exact h.putsApart.update (fun _ _ _ hnew => by cases hnew)
  · -- the other reservations lie in front of the new one
    intro j j' start count₁ items₁ start' count₂ items₂ hne hj hj'
    rcases role_update hj with ⟨hi, hnew⟩ | ⟨-, hrole⟩ <;>
      rcases role_update hj' with ⟨hi', hnew'⟩ | ⟨-, hrole'⟩
    · exact absurd (hi.trans hi'.symm) hne
    · cases hnew
      exact Or.inr (h.gets _ _ _ _ hrole').fits
    · cases hnew'
      exact Or.inl (h.gets _ _ _ _ hrole).fits
    · exact h.getsApart j j' _ _ _ _ _ _ hne hrole hrole'

/-- A reserved position is published and not released, so its slot holds the
    item that was claimed for it. -/
theorem Sound.read (h : Sound size s) {i : ι} {start count : Nat} {items : List α}
    (hrole : s.role i = .get start count items) (hmore : items.length < count) :
    Sound size { s with
      role := Function.update s.role i
        (.get start count (items ++ [s.slots ((start + items.length) % size)])) } := by
  have hget := h.gets i start count items hrole
  have hfits := hget.fits
  have hreserved := h.reserved_le
  have hpending := hget.pending
  constructor
  · exact h.published
  · exact h.consumed
  · exact h.reserved_ge
  · exact h.reserved_le
  · exact h.room
  · exact h.slot
  · intro j start' items' done hj
    rcases role_update hj with ⟨-, hnew⟩ | ⟨-, hrole'⟩
    · cases hnew
    · have hput := h.puts j start' items' done hrole'
      exact ⟨hput.nonempty, hput.filled, hput.fits, hput.item, hput.pending, hput.slot⟩
  · intro j start' count' items' hj
    rcases role_update hj with ⟨-, hnew⟩ | ⟨-, hrole'⟩
    · cases hnew
      refine ⟨hget.nonempty, ?_, hget.fits, hget.pending, ?_⟩
      · simp only [List.length_append, List.length_singleton]
        omega
      intro k hk
      simp only [List.length_append, List.length_singleton] at hk
      by_cases hk' : k < items.length
      · rw [List.getElem?_append_left hk']
        exact hget.item k hk'
      · obtain rfl : k = items.length := by omega
        rw [List.getElem?_concat_length]
        exact h.slot _ (by omega) (by omega)
    · have hget' := h.gets j start' count' items' hrole'
      exact ⟨hget'.nonempty, hget'.length, hget'.fits, hget'.pending, hget'.item⟩
  · exact h.putsApart.update (fun _ _ _ hnew => by cases hnew)
  · apply h.getsApart.update
    intro _ _ _ hnew
    cases hnew
    exact ⟨items, hrole⟩

theorem Sound.release (h : Sound size s) {i : ι} {start count : Nat} {items : List α}
    (hrole : s.role i = .get start count items) (hall : items.length = count)
    (hturn : start = s.consumed.length) :
    Sound size { s with
      consumed := s.consumed ++ items
      role := Function.update s.role i .idle } := by
  subst hturn hall
  have hget := h.gets i _ items.length items hrole
  have hfits := hget.fits
  have hroom := h.room
  constructor
  · exact h.published
  · exact extend_first_part h.consumed hget.item
  · simpa using hget.fits
  · exact h.reserved_le
  · simp only [List.length_append]
    omega
  · intro k hk hk'
    simp only [List.length_append] at hk
    exact h.slot k (by omega) hk'
  · intro j start' items' done hj
    rcases role_update hj with ⟨-, hnew⟩ | ⟨-, hrole'⟩
    · cases hnew
    · have hput := h.puts j start' items' done hrole'
      exact ⟨hput.nonempty, hput.filled, hput.fits, hput.item, hput.pending, hput.slot⟩
  · intro j start' count' items' hj
    rcases role_update hj with ⟨-, hnew⟩ | ⟨hne, hrole'⟩
    · cases hnew
    · have hget' := h.gets j start' count' items' hrole'
      have hsome' := hget'.nonempty
      have hpending := hget'.pending
      have hapart := h.getsApart j i _ _ _ _ _ _ hne hrole' hrole
      refine ⟨hget'.nonempty, hget'.length, hget'.fits, ?_, hget'.item⟩
      simp only [List.length_append]
      omega
  · exact h.putsApart.update (fun _ _ _ hnew => by cases hnew)
  · exact h.getsApart.update (fun _ _ _ hnew => by cases hnew)

/-- **Step lemma**: every step keeps the invariant. -/
theorem Sound.step {s' : State ι α} (h : Sound size s) (hstep : Step size s s') :
    Sound size s' := by
  cases hstep with
  | claim i hidle hsome hroom => exact h.claim hsome hroom
  | fill i hrole hitem => exact h.fill hrole hitem
  | publish i hrole hturn => exact h.publish hrole hturn
  | reserve i hidle hsome hroom => exact h.reserve hsome hroom
  | read i hrole hmore => exact h.read hrole hmore
  | release i hrole hall hturn => exact h.release hrole hall hturn

theorem Sound.grows {s' : State ι α} (h : Sound size s) (hstep : Step size s s') :
    Grows size s s' := by
  have hpublished := h.published_le
  have hge := h.reserved_ge
  have hle := h.reserved_le
  have hroom := h.room
  cases hstep <;> constructor <;> simp only [List.length_append] <;> omega

end get

end rules

/-! ## Section 5: The queue it implements

    To those outside, the queue takes items when they are published and gives
    them when they are released. -/

inductive Event (α : Type) where
  | put (items : List α)
  | get (items : List α)

/-- The events are a run of a queue of at most `capacity` items, which leaves
    the items of the last argument. -/
inductive QueueRun (capacity : Nat) : List (Event α) → List α → Prop where
  | start : QueueRun capacity [] []
  | put {events : List (Event α)} {queue : List α} (items : List α)
      (h : QueueRun capacity events queue) (hroom : queue.length + items.length ≤ capacity) :
      QueueRun capacity (events ++ [.put items]) (queue ++ items)
  | get {events : List (Event α)} {queue : List α} (items : List α)
      (h : QueueRun capacity events (items ++ queue)) :
      QueueRun capacity (events ++ [.get items]) queue

theorem QueueRun.length_le {capacity : Nat} {events : List (Event α)} {queue : List α}
    (h : QueueRun capacity events queue) : queue.length ≤ capacity := by
  induction h with
  | start => exact Nat.zero_le _
  | put items _ hroom _ => simpa using hroom
  | get items _ ih =>
    simp only [List.length_append] at ih
    omega

/-- The items published and not released. -/
def State.contents (s : State ι α) : List α := s.published.drop s.consumed.length

section queue
variable {size : Nat} {s : State ι α} {events : List (Event α)}

/-- The contents are in the slots. -/
theorem Sound.contents_eq (h : Sound size s) :
    s.contents = (List.range (s.published.length - s.consumed.length)).map
      fun k => s.slots ((s.consumed.length + k) % size) := by
  apply List.ext_getElem?
  intro k
  rw [State.contents, List.getElem?_drop, List.getElem?_map]
  by_cases hk : k < s.published.length - s.consumed.length
  · rw [List.getElem?_range hk, Option.map_some, ← h.slot _ (by omega) (by omega)]
    obtain ⟨rest, hrest⟩ := h.published
    rw [← hrest, List.getElem?_append_left (by omega)]
  · rw [List.getElem?_eq_none (by omega), List.getElem?_eq_none (by simpa using hk)]
    rfl

/-- **Refinement**: a publication is a put. -/
theorem Sound.contents_publish (h : Sound size s) {i : ι} {start : Nat} {items : List α}
    (hrole : s.role i = .put start items items.length) (hturn : start = s.published.length)
    (hrun : QueueRun (size - 1) events s.contents) :
    QueueRun (size - 1) (events ++ [.put items])
      ((s.published ++ items).drop s.consumed.length) := by
  have hfits := (h.puts i start items _ hrole).fits
  have hroom := h.room
  have hge := h.reserved_ge
  have hle := h.reserved_le
  rw [List.drop_append_of_le_length (by omega)]
  apply hrun.put
  simp only [State.contents, List.length_drop]
  omega

/-- **Refinement**: a release is a get. -/
theorem Sound.contents_release (h : Sound size s) {i : ι} {start count : Nat} {items : List α}
    (hrole : s.role i = .get start count items) (hall : items.length = count)
    (hturn : start = s.consumed.length) (hrun : QueueRun (size - 1) events s.contents) :
    QueueRun (size - 1) (events ++ [.get items])
      (s.published.drop (s.consumed ++ items).length) := by
  subst hturn hall
  have hget := h.gets i _ items.length items hrole
  have hfits := hget.fits
  have hle := h.reserved_le
  have hfirst : s.consumed ++ items <+: s.published := by
    apply List.prefix_of_prefix_length_le (extend_first_part h.consumed hget.item) h.published
    simp only [List.length_append]
    omega
  obtain ⟨rest, hrest⟩ := hfirst
  have hcontents : s.contents = items ++ rest := by
    rw [State.contents, ← hrest, List.append_assoc, List.drop_left]
  rw [← hrest, List.drop_left]
  rw [hcontents] at hrun
  exact hrun.get items

end queue

/-! ## Section 6: Positions in machine words

    An implementation keeps positions in words of `w` bits, which wrap around. -/

section words
variable {w : Nat}

/-- Positions that are close enough together are equal if their words are. -/
theorem eq_of_ofNat_eq {a b : Nat} (hle : a ≤ b) (hlt : b < a + 2 ^ w)
    (h : BitVec.ofNat w b = BitVec.ofNat w a) : b = a := by
  have hmod : b % 2 ^ w = a % 2 ^ w := by
    simpa only [BitVec.toNat_ofNat] using congrArg BitVec.toNat h
  by_contra hne
  exact mod_ne_of_window hle hlt (Nat.le_refl a) (by omega) hne hmod

theorem ofNat_sub_ofNat {a b : Nat} (hle : b ≤ a) :
    BitVec.ofNat w a - BitVec.ofNat w b = BitVec.ofNat w (a - b) := by
  have hsplit : BitVec.ofNat w a = BitVec.ofNat w (a - b) + BitVec.ofNat w b := by
    rw [← BitVec.ofNat_add, Nat.sub_add_cancel hle]
  rw [hsplit, BitVec.add_sub_cancel]

/-- A mask of the low `k` bits takes a position to its slot. -/
theorem toNat_and_mask {mask : BitVec w} {k : Nat} (hk : k ≤ w) (hmask : mask.toNat = 2 ^ k - 1)
    (a : Nat) : (BitVec.ofNat w a &&& mask).toNat = a % 2 ^ k := by
  rw [BitVec.toNat_and, hmask, Nat.and_two_pow_sub_one_eq_mod, BitVec.toNat_ofNat]
  exact Nat.mod_mod_of_dvd _ (Nat.pow_dvd_pow 2 hk)

end words

end Reservation
