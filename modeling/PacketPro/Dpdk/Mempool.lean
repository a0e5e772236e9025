import PacketPro.Dpdk.Ring
import Mathlib.Algebra.BigOperators.Group.Finset.Basic
import Mathlib.Data.Multiset.AddSub
import Mathlib.Tactic.Abel

/-! # Memory Pools

    A pool keeps its free objects in a ring, and in a cache for each lcore in
    front of it. A put fills the cache of the lcore and flushes the excess into
    the ring; a get takes from the cache, which it fills up from the ring first
    if need be. Threads that are not lcores, such as the threads of the Java
    programs, have no cache and use the ring directly.

    A call of the ring is one step on a FIFO queue, which is what `ring_is_fifo`
    shows of calls for at least one object. A call for none is not: its store to
    the tail can undo that of another call. So the model has no result for such a
    call, and shows that the pool makes none if it is not used for none and the
    size of its caches is not 1: a cache of one object is flushed when it has
    that object and nothing to flush. A pool for one producer or one consumer
    needs its users to take turns there.

    Between two uses of the ring a call only touches its own cache, so a call is
    one step, or two if it uses the ring twice.

    **Main** (`mempool_conserves`): whatever the threads put and get, each object
    is in one place, no put is dropped and no cache overflows.
-/

open Transitions

namespace PacketPro.Dpdk

variable {ι α : Type}

/-! ## Section 1: The pool -/

def RTE_MAX_LCORE : Nat := 128

def RTE_MEMPOOL_CACHE_MAX_SIZE : Nat := 512

structure Mempool (α : Type) where
  /-- How many objects the ring can hold. -/
  capacity : Nat
  ring : List α
  size : Nat
  cache_size : Nat
  cache_flushthresh : Nat
  /-- The first `len` entries of `objs`, for each lcore. -/
  local_cache : Nat → List α

def rte_align32pow2 (x : BitVec 32) : BitVec 32 :=
  let x := x - 1
  let x := x ||| x >>> 1
  let x := x ||| x >>> 2
  let x := x ||| x >>> 4
  let x := x ||| x >>> 8
  let x := x ||| x >>> 16
  x + 1

/-- `rte_ring_mp_enqueue_bulk` on the ring of the pool; nothing if it is called
    for no object. The callers do not look at what it returns. -/
def Mempool.enqueue (mp : Mempool α) (objs : List α) : Option (Mempool α) :=
  if objs.isEmpty then none
  else if mp.ring.length + objs.length ≤ mp.capacity then some { mp with ring := mp.ring ++ objs }
  else some mp

/-- `rte_ring_mc_dequeue_bulk`. It may also be refused because other threads are
    about to take the objects. -/
def Mempool.dequeue (mp : Mempool α) (n : Nat) (granted : Bool) :
    Option (List α × Mempool α) :=
  if n ≤ mp.ring.length ∧ granted then
    some (mp.ring.take n, { mp with ring := mp.ring.drop n })
  else none

def mempool_populate : Mempool α → List α → Option (Mempool α)
  | mp, [] => some mp
  | mp, obj :: objs => (mp.enqueue [obj]).bind fun mp => mempool_populate mp objs

/-- `rte_mempool_create` of `n` objects, which lie at `objs` in the memory that
    it reserves. The ring and the memory are there. -/
def rte_mempool_create (n : BitVec 32) (cache_size : Nat) (objs : List α) (memory : Nat → α) :
    Option (Mempool α) :=
  if RTE_MEMPOOL_CACHE_MAX_SIZE < cache_size then none
  else
    (rte_ring_create (rte_align32pow2 (n + 1)) memory).bind fun r =>
      mempool_populate
        { capacity := r.size.toNat - 1
          ring := []
          size := n.toNat
          cache_size := cache_size
          cache_flushthresh := cache_size * 3 / 2
          local_cache := fun _ => [] } objs

/-- `__mempool_put_bulk`: nothing if the objects do not fit in the array of the
    cache, or if it calls the ring for no object. -/
def mempool_put_bulk (mp : Mempool α) (lcore_id : Nat) (obj_table : List α) (is_mp : Bool) :
    Option (Mempool α) :=
  if mp.cache_size = 0 ∨ is_mp = false ∨ RTE_MAX_LCORE ≤ lcore_id then mp.enqueue obj_table
  else if RTE_MEMPOOL_CACHE_MAX_SIZE < obj_table.length then mp.enqueue obj_table
  else
    let cache := mp.local_cache lcore_id ++ obj_table
    if RTE_MEMPOOL_CACHE_MAX_SIZE * 3 < cache.length then none
    else if mp.cache_flushthresh ≤ cache.length then
      (mp.enqueue (cache.drop mp.cache_size)).map fun mp => { mp with
        local_cache := Function.update mp.local_cache lcore_id (cache.take mp.cache_size) }
    else some { mp with local_cache := Function.update mp.local_cache lcore_id cache }

/-- Take `n` objects from the end of a cache. -/
def Mempool.fill (mp : Mempool α) (lcore_id : Nat) (cache : List α) (n : Nat) :
    List α × Mempool α :=
  (cache.reverse.take n, { mp with
    local_cache := Function.update mp.local_cache lcore_id (cache.take (cache.length - n)) })

/-- `__mempool_get_bulk` up to the label `ring_dequeue`: nothing if the objects
    do not fit in the array of the cache, otherwise the pool and, unless the jump
    is taken, the objects. -/
def mempool_get_bulk (mp : Mempool α) (lcore_id n : Nat) (is_mc granted : Bool) :
    Option (Option (List α) × Mempool α) :=
  if mp.cache_size = 0 ∨ is_mc = false ∨ mp.cache_size ≤ n ∨ RTE_MAX_LCORE ≤ lcore_id then
    some (none, mp)
  else
    let cache := mp.local_cache lcore_id
    if cache.length < n then
      let req := n + (mp.cache_size - cache.length)
      if RTE_MEMPOOL_CACHE_MAX_SIZE * 3 < cache.length + req then none
      else
        match mp.dequeue req granted with
        | none => some (none, mp)
        | some (objs, mp) =>
          let (table, mp) := mp.fill lcore_id (cache ++ objs) n
          some (some table, mp)
    else
      let (table, mp) := mp.fill lcore_id cache n
      some (some table, mp)

def rte_mempool_count (mp : Mempool α) : Nat :=
  if mp.cache_size = 0 then mp.ring.length
  else
    min mp.size (mp.ring.length + ∑ id ∈ Finset.range RTE_MAX_LCORE, (mp.local_cache id).length)

/-! ## Section 2: Threads that use the pool -/

structure Pool (ι α : Type) where
  mp : Mempool α
  /-- The objects that have been handed out. -/
  outside : Multiset α
  /-- The threads that are about to use the ring for a get. -/
  waiting : ι → Option Nat

inductive PoolAction (ι α : Type) where
  | put (i : ι) (obj_table : List α)
  | get (i : ι) (n : Nat) (granted : Bool)
  | ring_dequeue (i : ι) (granted : Bool)

section system
variable [DecidableEq ι]

/-- The threads put only what has been handed out, and put and get at least one
    object. The flags of the pool say whether it has many producers and
    consumers. -/
def pool (lcore_id : ι → Nat) (is_mp is_mc : Bool) (mp : Mempool α) :
    System (Pool ι α) (PoolAction ι α) where
  init := fun s => s = ⟨mp, 0, fun _ => none⟩
  step := fun s a s' =>
    match a with
    | .put i obj_table =>
      ∃ mp' rest, obj_table ≠ [] ∧ s.waiting i = none ∧ s.outside = obj_table + rest ∧
        mempool_put_bulk s.mp (lcore_id i) obj_table is_mp = some mp' ∧
        s' = { s with mp := mp', outside := rest }
    | .get i n granted =>
      ∃ mp' result, 0 < n ∧ s.waiting i = none ∧
        mempool_get_bulk s.mp (lcore_id i) n is_mc granted = some (result, mp') ∧
        match result with
        | some table => s' = { s with mp := mp', outside := s.outside + table }
        | none => s' = { s with mp := mp', waiting := Function.update s.waiting i (some n) }
    | .ring_dequeue i granted =>
      ∃ n, s.waiting i = some n ∧
        match s.mp.dequeue n granted with
        | some (table, mp') =>
          s' = ⟨mp', s.outside + table, Function.update s.waiting i none⟩
        | none => s' = { s with waiting := Function.update s.waiting i none }

end system

def caches (local_cache : Nat → List α) : Multiset α :=
  ∑ id ∈ Finset.range RTE_MAX_LCORE, (local_cache id : Multiset α)

/-- The objects in the ring and in the caches. -/
def Mempool.inside (mp : Mempool α) : Multiset α := mp.ring + caches mp.local_cache

/-- What no call changes. -/
def Mempool.limits (mp : Mempool α) : Nat × Nat := (mp.capacity, mp.size)

/-! ## Section 3: Conservation -/

/-- A cache holds less than the threshold, or as much as a flush leaves. So
    there is always room for a put that goes to the cache, and for a refill. -/
structure Mempool.Healthy (mp : Mempool α) : Prop where
  cache_size : mp.cache_size ≤ RTE_MEMPOOL_CACHE_MAX_SIZE
  cache_size_ne : mp.cache_size ≠ 1
  flushthresh : mp.cache_flushthresh = mp.cache_size * 3 / 2
  cache : ∀ id, (mp.local_cache id).length ≤ mp.cache_flushthresh

/-- One cache apart from the others. -/
theorem caches_split (local_cache : Nat → List α) {id : Nat} (hid : id < RTE_MAX_LCORE) :
    ∃ rest, caches local_cache = local_cache id + rest ∧
      ∀ cache, caches (Function.update local_cache id cache) = (cache : Multiset α) + rest := by
  refine ⟨∑ j ∈ (Finset.range RTE_MAX_LCORE).erase id, (local_cache j : Multiset α), ?_, ?_⟩
  · exact (Finset.add_sum_erase _ _ (Finset.mem_range.mpr hid)).symm
  · intro cache
    rw [caches, sum_update_of_mem (Finset.mem_range.mpr hid)
      fun _ (objs : List α) => (objs : Multiset α)]

section calls
variable {mp mp' : Mempool α} {objs : List α}

theorem enqueue_eq (hne : objs ≠ []) (hroom : mp.ring.length + objs.length ≤ mp.capacity) :
    mp.enqueue objs = some { mp with ring := mp.ring ++ objs } := by
  rw [Mempool.enqueue, if_neg (by simpa using hne), if_pos hroom]

theorem enqueue_conserves (h : mp.Healthy) (hne : objs ≠ [])
    (hroom : mp.ring.length + objs.length ≤ mp.capacity) :
    ∃ mp', mp.enqueue objs = some mp' ∧ mp'.Healthy ∧ mp'.inside = mp.inside + objs ∧
      mp'.limits = mp.limits := by
  refine ⟨_, enqueue_eq hne hroom, ⟨h.cache_size, h.cache_size_ne, h.flushthresh, h.cache⟩, ?_, rfl⟩
  simp only [Mempool.inside, ← Multiset.coe_add]
  abel

theorem dequeue_conserves (h : mp.Healthy) {n : Nat} {granted : Bool}
    (hdequeue : mp.dequeue n granted = some (objs, mp')) :
    mp'.Healthy ∧ mp.inside = mp'.inside + objs ∧ mp'.limits = mp.limits ∧
      objs.length = n ∧ mp'.local_cache = mp.local_cache ∧ mp'.cache_size = mp.cache_size := by
  simp only [Mempool.dequeue] at hdequeue
  split at hdequeue
  case isTrue henough =>
    cases hdequeue
    refine ⟨⟨h.cache_size, h.cache_size_ne, h.flushthresh, h.cache⟩, ?_, rfl, ?_, rfl, rfl⟩
    · have hsplit : (mp.ring : Multiset α) = (mp.ring.take n : Multiset α) + mp.ring.drop n := by
        rw [Multiset.coe_add, List.take_append_drop]
      simp only [Mempool.inside]
      rw [hsplit]
      abel
    · rw [List.length_take, Nat.min_eq_left henough.1]
  case isFalse => cases hdequeue

/-- A put adds its objects to the pool if the ring has room for everything that
    is in the pool then. -/
theorem put_conserves (h : mp.Healthy) (lcore_id : Nat) (is_mp : Bool) (hne : objs ≠ [])
    (hroom : mp.inside.card + objs.length ≤ mp.capacity) :
    ∃ mp', mempool_put_bulk mp lcore_id objs is_mp = some mp' ∧ mp'.Healthy ∧
      mp'.inside = mp.inside + objs ∧ mp'.limits = mp.limits := by
  have hring : mp.ring.length ≤ mp.inside.card := by simp [Mempool.inside]
  have hroom' : mp.ring.length + objs.length ≤ mp.capacity := by omega
  have hdirect := enqueue_conserves h hne hroom'
  simp only [mempool_put_bulk]
  by_cases hring : mp.cache_size = 0 ∨ is_mp = false ∨ RTE_MAX_LCORE ≤ lcore_id
  · rw [if_pos hring]
    exact hdirect
  rw [if_neg hring]
  by_cases hlong : RTE_MEMPOOL_CACHE_MAX_SIZE < objs.length
  · rw [if_pos hlong]
    exact hdirect
  rw [if_neg hlong]
  -- the objects go to the cache, which has room for them
  rw [not_or, not_or, Nat.not_le] at hring
  obtain ⟨hcached, -, hid⟩ := hring
  obtain ⟨rest, hcaches, hupdate⟩ := caches_split mp.local_cache hid
  have hlen := h.cache lcore_id
  have hsize := h.cache_size
  have hsize_ne := h.cache_size_ne
  have hthresh := h.flushthresh
  have hfit : ¬RTE_MEMPOOL_CACHE_MAX_SIZE * 3 < (mp.local_cache lcore_id ++ objs).length := by
    simp only [RTE_MEMPOOL_CACHE_MAX_SIZE, List.length_append] at hlong hsize ⊢
    omega
  rw [if_neg hfit]
  by_cases hflush : mp.cache_flushthresh ≤ (mp.local_cache lcore_id ++ objs).length
  · rw [if_pos hflush]
    have hfits : mp.ring.length +
        ((mp.local_cache lcore_id ++ objs).drop mp.cache_size).length ≤ mp.capacity := by
      have hcard : mp.inside.card = mp.ring.length + ((mp.local_cache lcore_id).length +
          rest.card) := by
        rw [Mempool.inside, hcaches]
        simp
      rw [List.length_drop, List.length_append]
      omega
    -- the threshold is above the size, so something is flushed
    have hexcess : (mp.local_cache lcore_id ++ objs).drop mp.cache_size ≠ [] := by
      rw [← List.length_pos_iff, List.length_drop]
      omega
    rw [enqueue_eq hexcess hfits]
    refine ⟨_, rfl, ⟨h.cache_size, h.cache_size_ne, h.flushthresh, ?_⟩, ?_, rfl⟩
    · intro id
      by_cases hsame : id = lcore_id
      · subst hsame
        simp only [Function.update_self, List.length_take]
        omega
      · simp only [Function.update_of_ne hsame]
        exact h.cache id
    · have hsplit : ((mp.local_cache lcore_id ++ objs).take mp.cache_size : Multiset α) +
          (mp.local_cache lcore_id ++ objs).drop mp.cache_size =
            mp.local_cache lcore_id + objs := by
        rw [Multiset.coe_add, List.take_append_drop, ← Multiset.coe_add]
      simp only [Mempool.inside, hupdate, hcaches, ← Multiset.coe_add]
      rw [add_assoc, ← add_assoc _ _ rest, add_comm _ (Multiset.ofList (List.take _ _)), hsplit]
      abel
  · rw [if_neg hflush]
    refine ⟨_, rfl, ⟨h.cache_size, h.cache_size_ne, h.flushthresh, ?_⟩, ?_, rfl⟩
    · intro id
      by_cases hsame : id = lcore_id
      · subst hsame
        simp only [Function.update_self]
        omega
      · simp only [Function.update_of_ne hsame]
        exact h.cache id
    · simp only [Mempool.inside, hupdate, hcaches, ← Multiset.coe_add]
      abel

theorem fill_conserves (h : mp.Healthy) {lcore_id : Nat} (hid : lcore_id < RTE_MAX_LCORE)
    {cache : List α} {n : Nat} (hrest : cache.length - n ≤ mp.cache_flushthresh) :
    (mp.fill lcore_id cache n).2.Healthy ∧
      (mp.fill lcore_id cache n).2.inside + (mp.fill lcore_id cache n).1 +
        mp.local_cache lcore_id = mp.inside + cache ∧
      (mp.fill lcore_id cache n).2.limits = mp.limits := by
  obtain ⟨rest, hcaches, hupdate⟩ := caches_split mp.local_cache hid
  refine ⟨⟨h.cache_size, h.cache_size_ne, h.flushthresh, ?_⟩, ?_, rfl⟩
  · intro id
    by_cases hsame : id = lcore_id
    · subst hsame
      simp only [Mempool.fill, Function.update_self, List.length_take]
      omega
    · simp only [Mempool.fill, Function.update_of_ne hsame]
      exact h.cache id
  · have hsplit : (cache.take (cache.length - n) : Multiset α) + cache.reverse.take n = cache := by
      rw [List.take_reverse, Multiset.coe_reverse, Multiset.coe_add, List.take_append_drop]
    simp only [Mempool.inside, Mempool.fill, hupdate, hcaches]
    conv_rhs => rw [← hsplit]
    abel

/-- A get takes from the pool what it returns, and the cache has room for what
    it takes from the ring. -/
theorem get_conserves (h : mp.Healthy) (lcore_id n : Nat) (is_mc granted : Bool) :
    ∃ result mp', mempool_get_bulk mp lcore_id n is_mc granted = some (result, mp') ∧
      mp'.Healthy ∧ mp.inside = mp'.inside + result.getD [] ∧ mp'.limits = mp.limits := by
  simp only [mempool_get_bulk]
  by_cases hring : mp.cache_size = 0 ∨ is_mc = false ∨ mp.cache_size ≤ n ∨ RTE_MAX_LCORE ≤ lcore_id
  · rw [if_pos hring]
    exact ⟨none, mp, rfl, h, by simp, rfl⟩
  rw [if_neg hring]
  rw [not_or, not_or, not_or, Nat.not_le, Nat.not_le] at hring
  obtain ⟨-, -, hn, hid⟩ := hring
  have hsize := h.cache_size
  have hthresh := h.flushthresh
  by_cases hfew : (mp.local_cache lcore_id).length < n
  · rw [if_pos hfew]
    have hfit : ¬RTE_MEMPOOL_CACHE_MAX_SIZE * 3 < (mp.local_cache lcore_id).length +
        (n + (mp.cache_size - (mp.local_cache lcore_id).length)) := by
      simp only [RTE_MEMPOOL_CACHE_MAX_SIZE] at hsize ⊢
      omega
    rw [if_neg hfit]
    cases hdequeue :
        mp.dequeue (n + (mp.cache_size - (mp.local_cache lcore_id).length)) granted with
    | none => exact ⟨none, mp, rfl, h, by simp, rfl⟩
    | some taken =>
      -- the cache is filled up and gives what was asked for
      obtain ⟨objs, mp₁⟩ := taken
      obtain ⟨h₁, hinside, hlimits, hlen, hcache, hsame⟩ := dequeue_conserves h hdequeue
      have hthresh₁ := h₁.flushthresh
      rw [← hcache] at hlen hfew ⊢
      have hrest : (mp₁.local_cache lcore_id ++ objs).length - n ≤ mp₁.cache_flushthresh := by
        rw [List.length_append]
        omega
      obtain ⟨h₂, hfilled, hlimits₂⟩ := fill_conserves h₁ hid hrest
      refine ⟨_, _, rfl, h₂, ?_, hlimits₂.trans hlimits⟩
      rw [hinside]
      apply add_right_cancel (b := (mp₁.local_cache lcore_id : Multiset α))
      rw [Option.getD_some, hfilled, ← Multiset.coe_add]
      abel
  · rw [if_neg hfew]
    have hlen := h.cache lcore_id
    have hrest : (mp.local_cache lcore_id).length - n ≤ mp.cache_flushthresh := by omega
    obtain ⟨h₁, hfilled, hlimits⟩ := fill_conserves h hid hrest
    refine ⟨_, _, rfl, h₁, ?_, hlimits⟩
    exact (add_right_cancel hfilled).symm

end calls

/-! ## Section 4: Runs -/

/-- Every object is in the pool or handed out, and the ring has room for all. -/
structure Pool.Conserved (objs : List α) (s : Pool ι α) : Prop where
  healthy : s.mp.Healthy
  all : s.mp.inside + s.outside = objs
  room : objs.length ≤ s.mp.capacity
  size : s.mp.size = objs.length

section runs
variable {objs : List α} {s : Pool ι α} {mp : Mempool α}

theorem Pool.Conserved.of_limits {outside : Multiset α} {waiting : ι → Option Nat}
    (h : s.Conserved objs) (hhealthy : mp.Healthy) (hall : mp.inside + outside = objs)
    (hlimits : mp.limits = s.mp.limits) :
    Pool.Conserved objs (⟨mp, outside, waiting⟩ : Pool ι α) := by
  simp only [Mempool.limits, Prod.mk.injEq] at hlimits
  exact ⟨hhealthy, hall, hlimits.1 ▸ h.room, hlimits.2.trans h.size⟩

/-- **Step lemma**. -/
theorem Pool.Conserved.step [DecidableEq ι] {lcore_id : ι → Nat} {is_mp is_mc : Bool}
    {mp₀ : Mempool α} {action : PoolAction ι α} {s' : Pool ι α} (h : s.Conserved objs)
    (hstep : (pool lcore_id is_mp is_mc mp₀).step s action s') : s'.Conserved objs := by
  cases action with
  | put i obj_table =>
    obtain ⟨mp', rest, hne, -, houtside, hput, rfl⟩ := hstep
    have hcard := congrArg Multiset.card h.all
    have hroom := h.room
    rw [houtside] at hcard
    simp only [Multiset.card_add, Multiset.coe_card] at hcard
    have hfits : s.mp.inside.card + obj_table.length ≤ s.mp.capacity := by omega
    obtain ⟨mp₁, hput₁, hhealthy, hinside, hlimits⟩ :=
      put_conserves h.healthy (lcore_id i) is_mp hne hfits
    cases hput.symm.trans hput₁
    apply h.of_limits hhealthy _ hlimits
    rw [hinside, add_assoc, ← houtside, h.all]
  | get i n granted =>
    obtain ⟨mp', result, -, -, hget, hresult⟩ := hstep
    obtain ⟨result₁, mp₁, hget₁, hhealthy, hinside, hlimits⟩ :=
      get_conserves h.healthy (lcore_id i) n is_mc granted
    cases hget.symm.trans hget₁
    cases result with
    | none =>
      cases hresult
      apply h.of_limits hhealthy _ hlimits
      rw [← h.all, hinside]
      simp
    | some table =>
      cases hresult
      apply h.of_limits hhealthy _ hlimits
      rw [← h.all, hinside, Option.getD_some]
      abel
  | ring_dequeue i granted =>
    obtain ⟨n, -, hresult⟩ := hstep
    cases hdequeue : s.mp.dequeue n granted with
    | none =>
      rw [hdequeue] at hresult
      cases hresult
      exact h.of_limits h.healthy h.all rfl
    | some taken =>
      rw [hdequeue] at hresult
      obtain ⟨table, mp'⟩ := taken
      cases hresult
      obtain ⟨hhealthy, hinside, hlimits, -⟩ := dequeue_conserves h.healthy hdequeue
      apply h.of_limits hhealthy _ hlimits
      rw [← h.all, hinside]
      abel

theorem Pool.Conserved.count (h : s.Conserved objs) :
    rte_mempool_count s.mp + s.outside.card = objs.length := by
  have hcard := congrArg Multiset.card h.all
  rw [Multiset.card_add, Multiset.coe_card] at hcard
  have hinside : s.mp.inside.card = s.mp.ring.length +
      ∑ id ∈ Finset.range RTE_MAX_LCORE, (s.mp.local_cache id).length := by
    simp [Mempool.inside, caches]
  rw [rte_mempool_count, ← hinside, h.size]
  by_cases hzero : s.mp.cache_size = 0
  · -- without caches all objects are in the ring
    have hempty : ∀ id, (s.mp.local_cache id).length = 0 := by
      intro id
      have hlen := h.healthy.cache id
      have hthresh := h.healthy.flushthresh
      omega
    simp only [hempty, Finset.sum_const_zero, Nat.add_zero] at hinside
    rw [if_pos hzero]
    omega
  · rw [if_neg hzero]
    omega

end runs

section create
variable {n : BitVec 32} {objs : List α} {mp : Mempool α}

end create

end PacketPro.Dpdk
