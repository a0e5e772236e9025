import PacketPro.Framework.Reservation
import Mathlib.Tactic.IntervalCases

/-! # The Ring

    `rte_ring` hands objects from any number of producers to any number of
    consumers without a lock. The memory pools of this program keep their free
    mbufs in one, and the Java threads, which are not lcores, put every freed
    packet straight into it.

    A call of `__rte_ring_mp_do_enqueue` or `__rte_ring_mc_do_dequeue` is a
    sequence of accesses to shared memory. Here each access is one step of the
    thread that makes it, and the steps of all threads interleave freely.

    This module has the calls and the threads, and two results about single
    calls: the unrolled loops go through the same slots as plain ones
    (`ptrs_eq`), and a return value says how many objects were moved
    (`enqueue_honest`, `dequeue_honest`).
-/

open Transitions Reservation

namespace PacketPro.Dpdk

variable {ι α : Type}

/-! ## Section 1: The data -/

/-- `prod` and `cons` have the same `size` and `mask`. -/
structure Ring (α : Type) where
  size : BitVec 32
  mask : BitVec 32
  watermark : BitVec 32
  prod_head : BitVec 32
  prod_tail : BitVec 32
  cons_head : BitVec 32
  cons_tail : BitVec 32
  ring : Nat → α

def EINVAL : BitVec 32 := 22

def ENOENT : BitVec 32 := 2

def ENOBUFS : BitVec 32 := 105

def EDQUOT : BitVec 32 := 122

def RTE_RING_QUOT_EXCEED : BitVec 32 := 0x80000000

def RTE_RING_SZ_MASK : BitVec 32 := 0x0fffffff

def POWEROF2 (x : BitVec 32) : Bool := (x - 1) &&& x == 0

/-- The slots keep what was in the memory. -/
def rte_ring_init (count : BitVec 32) (memory : Nat → α) : Ring α where
  size := count
  mask := count - 1
  watermark := count
  prod_head := 0
  prod_tail := 0
  cons_head := 0
  cons_tail := 0
  ring := memory

/-- With the check of `rte_ring_get_memsize`. -/
def rte_ring_create (count : BitVec 32) (memory : Nat → α) : Option (Ring α) :=
  if !POWEROF2 count || RTE_RING_SZ_MASK < count then none else some (rte_ring_init count memory)

def rte_ring_set_water_mark (r : Ring α) (count : BitVec 32) : BitVec 32 × Ring α :=
  if r.size ≤ count then (-EINVAL, r)
  else (0, { r with watermark := if count = 0 then r.size else count })

def rte_ring_count (r : Ring α) : BitVec 32 := (r.prod_tail - r.cons_tail) &&& r.mask

inductive Behavior where
  | RTE_RING_QUEUE_FIXED
  | RTE_RING_QUEUE_VARIABLE
  deriving DecidableEq, Repr

/-! ## Section 2: The accesses of a call -/

/-- The slots that a call goes through, each with its index in `obj_table`. The
    first loop takes four at a time. -/
def ptrs (size mask head n : BitVec 32) : List (Nat × Nat) :=
  let idx := head &&& mask
  if idx + n < size then
    let blocks := (n &&& ~~~3#32).toNat / 4
    (List.range blocks).flatMap (fun b => (List.range 4).map fun j =>
      (idx.toNat + (4 * b + j), 4 * b + j)) ++
    (List.range (n &&& 3#32).toNat).map fun j => (idx.toNat + (4 * blocks + j), 4 * blocks + j)
  else
    let upper := size.toNat - idx.toNat
    (List.range upper).map (fun j => (idx.toNat + j, j)) ++
    (List.range (n.toNat - upper)).map fun j => (j, upper + j)

def ENQUEUE_PTRS (r : Ring α) (prod_head n : BitVec 32) : List (Nat × Nat) :=
  ptrs r.size r.mask prod_head n

def DEQUEUE_PTRS (r : Ring α) (cons_head n : BitVec 32) : List (Nat × Nat) :=
  ptrs r.size r.mask cons_head n

structure Enqueue (α : Type) where
  obj_table : Nat → α
  max : BitVec 32
  behavior : Behavior

structure Dequeue where
  max : BitVec 32
  behavior : Behavior

inductive Call (α : Type) where
  | enqueue (c : Enqueue α)
  | dequeue (c : Dequeue)

def Call.max : Call α → BitVec 32
  | .enqueue c => c.max
  | .dequeue c => c.max

/-- A call that has returned: the objects it moved and its return value. -/
structure Return (α : Type) where
  call : Call α
  objs : List α
  ret : BitVec 32

/-- How many of `max` objects to move when there are `available`, or what to
    return at once. -/
def burst (behavior : Behavior) (max available failed : BitVec 32) :
    Except (BitVec 32) (BitVec 32) :=
  if available < max then
    match behavior with
    | .RTE_RING_QUEUE_FIXED => .error failed
    | .RTE_RING_QUEUE_VARIABLE => if available = 0 then .error 0 else .ok available
  else .ok max

/-- What an enqueue of `n` objects returns. -/
def enqueueRet (r : Ring α) (behavior : Behavior) (free_entries n : BitVec 32) : BitVec 32 :=
  if r.watermark < r.mask + 1 - free_entries + n then
    match behavior with
    | .RTE_RING_QUEUE_FIXED => -EDQUOT
    | .RTE_RING_QUEUE_VARIABLE => n ||| RTE_RING_QUOT_EXCEED
  else
    match behavior with
    | .RTE_RING_QUEUE_FIXED => 0
    | .RTE_RING_QUEUE_VARIABLE => n

def dequeueRet (behavior : Behavior) (n : BitVec 32) : BitVec 32 :=
  match behavior with
  | .RTE_RING_QUEUE_FIXED => 0
  | .RTE_RING_QUEUE_VARIABLE => n

/-- The next access of a thread to the ring, with the local variables that the
    rest of the call uses. -/
inductive Pc (α : Type) where
  | idle
  | loadProdHead (c : Enqueue α)
  | loadConsTail (c : Enqueue α) (prod_head : BitVec 32)
  | moveProdHead (c : Enqueue α) (prod_head free_entries n : BitVec 32)
  | writeEntry (c : Enqueue α) (prod_head free_entries n : BitVec 32) (k : Nat)
  | awaitProdTail (c : Enqueue α) (prod_head n ret : BitVec 32)
  | storeProdTail (c : Enqueue α) (prod_head n ret : BitVec 32)
  | loadConsHead (c : Dequeue)
  | loadProdTail (c : Dequeue) (cons_head : BitVec 32)
  | moveConsHead (c : Dequeue) (cons_head n : BitVec 32)
  | readEntry (c : Dequeue) (cons_head n : BitVec 32) (obj_table : List α)
  | awaitConsTail (c : Dequeue) (cons_head n : BitVec 32) (obj_table : List α)
  | storeConsTail (c : Dequeue) (cons_head n : BitVec 32) (obj_table : List α)

def Call.start : Call α → Pc α
  | .enqueue c => .loadProdHead c
  | .dequeue c => .loadConsHead c

/-- One access to the ring: the ring and the thread after it, and what the call
    returns if it is over. -/
def access (r : Ring α) : Pc α → Ring α × Pc α × Option (Return α)
  | .idle => (r, .idle, none)
  -- __rte_ring_mp_do_enqueue
  | .loadProdHead c => (r, .loadConsTail c r.prod_head, none)
  | .loadConsTail c prod_head =>
    let free_entries := r.mask + r.cons_tail - prod_head
    match burst c.behavior c.max free_entries (-ENOBUFS) with
    | .error ret => (r, .idle, some ⟨.enqueue c, [], ret⟩)
    | .ok n => (r, .moveProdHead c prod_head free_entries n, none)
  | .moveProdHead c prod_head free_entries n =>
    if r.prod_head = prod_head then
      ({ r with prod_head := prod_head + n }, .writeEntry c prod_head free_entries n 0, none)
    else (r, .loadProdHead c, none)
  | .writeEntry c prod_head free_entries n k =>
    match (ENQUEUE_PTRS r prod_head n)[k]? with
    | some (idx, i) =>
      ({ r with ring := Function.update r.ring idx (c.obj_table i) },
        .writeEntry c prod_head free_entries n (k + 1), none)
    | none => (r, .awaitProdTail c prod_head n (enqueueRet r c.behavior free_entries n), none)
  | .awaitProdTail c prod_head n ret =>
    if r.prod_tail = prod_head then (r, .storeProdTail c prod_head n ret, none)
    else (r, .awaitProdTail c prod_head n ret, none)
  | .storeProdTail c prod_head n ret =>
    ({ r with prod_tail := prod_head + n }, .idle,
      some ⟨.enqueue c, (List.range n.toNat).map c.obj_table, ret⟩)
  -- __rte_ring_mc_do_dequeue
  | .loadConsHead c => (r, .loadProdTail c r.cons_head, none)
  | .loadProdTail c cons_head =>
    match burst c.behavior c.max (r.prod_tail - cons_head) (-ENOENT) with
    | .error ret => (r, .idle, some ⟨.dequeue c, [], ret⟩)
    | .ok n => (r, .moveConsHead c cons_head n, none)
  | .moveConsHead c cons_head n =>
    if r.cons_head = cons_head then
      ({ r with cons_head := cons_head + n }, .readEntry c cons_head n [], none)
    else (r, .loadConsHead c, none)
  | .readEntry c cons_head n obj_table =>
    match (DEQUEUE_PTRS r cons_head n)[obj_table.length]? with
    | some (idx, _) => (r, .readEntry c cons_head n (obj_table ++ [r.ring idx]), none)
    | none => (r, .awaitConsTail c cons_head n obj_table, none)
  | .awaitConsTail c cons_head n obj_table =>
    if r.cons_tail = cons_head then (r, .storeConsTail c cons_head n obj_table, none)
    else (r, .awaitConsTail c cons_head n obj_table, none)
  | .storeConsTail c cons_head n obj_table =>
    ({ r with cons_tail := cons_head + n }, .idle,
      some ⟨.dequeue c, obj_table, dequeueRet c.behavior n⟩)

/-! ## Section 3: The threads -/

/-- Threads that call the ring. The last three fields are not in the memory of
    the program: how far the heads have moved in all, and how far the head that
    a thread loaded last had moved then. -/
structure Threads (ι α : Type) where
  ring : Ring α
  pc : ι → Pc α
  /-- The calls that have returned, oldest first. -/
  history : List (ι × Return α)
  prodMoved : Nat
  consMoved : Nat
  seen : ι → Nat

inductive Action (ι α : Type) where
  | call (i : ι) (c : Call α)
  | access (i : ι)
  | set_water_mark (count : BitVec 32)

section system
variable [DecidableEq ι]

def Threads.loaded (s : Threads ι α) (i : ι) : Nat :=
  match s.pc i with
  | .loadProdHead _ => s.prodMoved
  | .loadConsHead _ => s.consMoved
  | _ => s.seen i

/-- Thread `i` has made its next access. -/
def Threads.accessed (s : Threads ι α) (i : ι) : Threads ι α :=
  let (r, pc, ret) := access s.ring (s.pc i)
  { ring := r
    pc := Function.update s.pc i pc
    history := s.history ++ (ret.map fun x => (i, x)).toList
    prodMoved := s.prodMoved + (r.prod_head - s.ring.prod_head).toNat
    consMoved := s.consMoved + (r.cons_head - s.ring.cons_head).toNat
    seen := Function.update s.seen i (s.loaded i) }

def threads (r : Ring α) : System (Threads ι α) (Action ι α) where
  init := fun s => s = ⟨r, fun _ => .idle, [], 0, 0, fun _ => 0⟩
  step := fun s a s' =>
    match a with
    | .call i c => s.pc i = .idle ∧ s' = { s with pc := Function.update s.pc i c.start }
    | .access i => s' = s.accessed i
    | .set_water_mark count => s' = { s with ring := (rte_ring_set_water_mark s.ring count).2 }

end system

/-- Calls are for at least one object: a call for none could store a tail after
    others have moved it on. And a head moves by less than 2^32 between its load
    and the compare-and-set. -/
def Timely (s : Threads ι α) : Action ι α → Prop
  | .call _ c => c.max ≠ 0
  | .access i =>
    match s.pc i with
    | .moveProdHead .. => s.prodMoved < s.seen i + 2 ^ 32
    | .moveConsHead .. => s.consMoved < s.seen i + 2 ^ 32
    | _ => True
  | .set_water_mark _ => True

/-- To the queue, a call is the objects it moved. -/
def Return.event (x : Return α) : Event α :=
  match x.call with
  | .enqueue _ => .put x.objs
  | .dequeue _ => .get x.objs

/-- The return value says how many objects were moved. -/
def Return.Honest (x : Return α) : Prop :=
  match x.call with
  | .enqueue c =>
    x.objs = (List.range x.objs.length).map c.obj_table ∧
    match c.behavior with
    | .RTE_RING_QUEUE_FIXED =>
      (x.ret = 0 ∨ x.ret = -EDQUOT) ∧ x.objs.length = c.max.toNat ∨
        x.ret = -ENOBUFS ∧ x.objs = []
    | .RTE_RING_QUEUE_VARIABLE =>
      (x.ret &&& ~~~RTE_RING_QUOT_EXCEED).toNat = x.objs.length ∧ x.objs.length ≤ c.max.toNat
  | .dequeue c =>
    match c.behavior with
    | .RTE_RING_QUEUE_FIXED =>
      x.ret = 0 ∧ x.objs.length = c.max.toNat ∨ x.ret = -ENOENT ∧ x.objs = []
    | .RTE_RING_QUEUE_VARIABLE => x.ret.toNat = x.objs.length ∧ x.objs.length ≤ c.max.toNat

/-- The objects between the tails. -/
def Ring.contents (r : Ring α) : List α :=
  (List.range (rte_ring_count r).toNat).map fun k =>
    r.ring ((r.cons_tail.toNat + k) % r.size.toNat)

/-! ## Section 4: Sizes and slots -/

/-- A ring that was created has a power of two as its size, unless that is zero,
    which the check lets through. -/
theorem size_of_create {count : BitVec 32} {memory : Nat → α} {r : Ring α}
    (h : rte_ring_create count memory = some r) (hcount : count ≠ 0) :
    r = rte_ring_init count memory ∧ ∃ k ≤ 31, count.toNat = 2 ^ k := by
  simp only [rte_ring_create] at h
  split at h
  case isTrue => cases h
  case isFalse hvalid =>
    simp only [Bool.or_eq_true, Bool.not_eq_true', decide_eq_true_eq, not_or] at hvalid
    obtain ⟨hpower, -⟩ := hvalid
    refine ⟨(Option.some.inj h).symm, ?_⟩
    have hpos : count.toNat ≠ 0 := fun h => hcount (BitVec.eq_of_toNat_eq h)
    have hand : count.toNat &&& (count.toNat - 1) = 0 := by
      simp only [POWEROF2, Bool.not_eq_false, beq_iff_eq] at hpower
      have hsub : (count - 1).toNat = count.toNat - 1 := by
        rw [BitVec.toNat_sub_of_le]
        · rfl
        · exact BitVec.le_def.mpr (Nat.pos_of_ne_zero hpos)
      rw [Nat.and_comm, ← hsub, ← BitVec.toNat_and, hpower]
      rfl
    obtain ⟨k, hk⟩ := (Nat.and_sub_one_eq_zero_iff_isPowerOfTwo hpos).mp hand
    refine ⟨k, ?_, hk⟩
    have hlt := count.isLt
    rw [hk] at hlt
    have := (Nat.pow_lt_pow_iff_right (by omega)).mp hlt
    omega

theorem and_three (n : BitVec 32) : (n &&& 3#32).toNat = n.toNat % 4 := by
  rw [BitVec.toNat_and]
  exact Nat.and_two_pow_sub_one_eq_mod n.toNat 2

theorem and_not_three (n : BitVec 32) : (n &&& ~~~3#32).toNat = 4 * (n.toNat / 4) := by
  have hshift : n &&& ~~~3#32 = (n >>> 2) <<< 2 := by
    ext i hi
    interval_cases i <;> simp
  rw [hshift, BitVec.toNat_shiftLeft, BitVec.toNat_ushiftRight, Nat.shiftRight_eq_div_pow,
    Nat.shiftLeft_eq]
  have := n.isLt
  omega

theorem flatMap_range_blocks {β : Type} (f : Nat → β) (b : Nat) :
    (List.range b).flatMap (fun k => (List.range 4).map fun j => f (4 * k + j)) =
      (List.range (4 * b)).map f := by
  induction b with
  | zero => rfl
  | succ b ih =>
    rw [List.range_succ (n := b), List.flatMap_append, ih, Nat.mul_succ, List.range_add,
      List.map_append, List.map_map]
    simp only [List.flatMap_singleton, Function.comp_def]

theorem ptrs_eq {size mask head n : BitVec 32} {k start : Nat} (hk : k ≤ 31)
    (hsize : size.toNat = 2 ^ k) (hmask : mask.toNat = 2 ^ k - 1)
    (hhead : head = BitVec.ofNat 32 start) (hn : n.toNat < 2 ^ k) :
    ptrs size mask head n = (List.range n.toNat).map fun i => ((start + i) % 2 ^ k, i) := by
  have hidx : (head &&& mask).toNat = start % 2 ^ k := by
    rw [hhead, toNat_and_mask (by omega) hmask]
  have hlt : start % 2 ^ k < 2 ^ k := Nat.mod_lt _ (Nat.two_pow_pos k)
  have hpow : 2 ^ k ≤ 2 ^ 31 := Nat.pow_le_pow_right (by omega) hk
  have hslot : ∀ i, (start + i) % 2 ^ k = (start % 2 ^ k + i) % 2 ^ k := fun i => by
    rw [Nat.mod_add_mod]
  have hsum : (head &&& mask).toNat + n.toNat < 2 ^ 32 := by omega
  simp only [ptrs]
  split
  case isTrue h =>
    rw [BitVec.lt_def, BitVec.toNat_add_of_lt hsum, hsize, hidx] at h
    rw [and_three, and_not_three, Nat.mul_div_cancel_left _ (by omega),
      flatMap_range_blocks (fun i => ((head &&& mask).toNat + i, i)), hidx]
    have hsplit := Nat.div_add_mod n.toNat 4
    conv_rhs => rw [← hsplit, List.range_add, List.map_append, List.map_map]
    congr 1
    · apply List.map_congr_left
      intro i hi
      rw [List.mem_range] at hi
      rw [hslot, Nat.mod_eq_of_lt (a := start % 2 ^ k + i) (by omega)]
    · apply List.map_congr_left
      intro i hi
      rw [List.mem_range] at hi
      simp only [Function.comp]
      rw [hslot, Nat.mod_eq_of_lt (a := start % 2 ^ k + _) (by omega)]
  case isFalse h =>
    rw [BitVec.lt_def, BitVec.toNat_add_of_lt hsum, hsize, hidx] at h
    rw [hsize, hidx]
    have hsplit : 2 ^ k - start % 2 ^ k + (n.toNat - (2 ^ k - start % 2 ^ k)) = n.toNat := by omega
    conv_rhs => rw [← hsplit, List.range_add, List.map_append, List.map_map]
    congr 1
    · apply List.map_congr_left
      intro i hi
      rw [List.mem_range] at hi
      rw [hslot, Nat.mod_eq_of_lt (a := start % 2 ^ k + i) (by omega)]
    · apply List.map_congr_left
      intro i hi
      rw [List.mem_range] at hi
      simp only [Function.comp]
      rw [hslot]
      have hwrap : start % 2 ^ k + (2 ^ k - start % 2 ^ k + i) = 2 ^ k + i := by omega
      rw [hwrap, Nat.add_mod_left, Nat.mod_eq_of_lt (a := i) (by omega)]

/-! ## Section 5: Return values -/

theorem burst_ok {behavior : Behavior} {max available failed n : BitVec 32}
    (h : burst behavior max available failed = .ok n) :
    n.toNat ≤ available.toNat ∧ n.toNat ≤ max.toNat ∧
      (behavior = .RTE_RING_QUEUE_FIXED → n = max) ∧ (max ≠ 0 → n ≠ 0) := by
  simp only [burst] at h
  by_cases hlt : available < max
  · rw [if_pos hlt] at h
    cases behavior with
    | RTE_RING_QUEUE_FIXED => cases h
    | RTE_RING_QUEUE_VARIABLE =>
      by_cases hzero : available = 0
      · simp only [hzero, if_true] at h
        cases h
      · simp only [hzero, if_false] at h
        cases h
        exact ⟨Nat.le_refl _, Nat.le_of_lt (BitVec.lt_def.mp hlt),
          fun h => (by cases h), fun _ => hzero⟩
  · rw [if_neg hlt] at h
    cases h
    exact ⟨Nat.le_of_not_lt (fun h => hlt (BitVec.lt_def.mpr h)), Nat.le_refl _, fun _ => rfl, id⟩

theorem burst_error {behavior : Behavior} {max available failed ret : BitVec 32}
    (h : burst behavior max available failed = .error ret) :
    available.toNat < max.toNat ∧ (behavior = .RTE_RING_QUEUE_FIXED ∧ ret = failed ∨
      behavior = .RTE_RING_QUEUE_VARIABLE ∧ ret = 0 ∧ available = 0) := by
  simp only [burst] at h
  by_cases hlt : available < max
  · refine ⟨BitVec.lt_def.mp hlt, ?_⟩
    rw [if_pos hlt] at h
    cases behavior with
    | RTE_RING_QUEUE_FIXED =>
      cases h
      exact Or.inl ⟨rfl, rfl⟩
    | RTE_RING_QUEUE_VARIABLE =>
      by_cases hzero : available = 0
      · simp only [hzero, if_true] at h
        cases h
        exact Or.inr ⟨rfl, rfl, hzero⟩
      · simp only [hzero, if_false] at h
        cases h
  · rw [if_neg hlt] at h
    cases h

/-- The objects of an enqueue of `n`. -/
def Enqueue.first (c : Enqueue α) (n : BitVec 32) : List α := (List.range n.toNat).map c.obj_table

theorem length_first (c : Enqueue α) (n : BitVec 32) : (c.first n).length = n.toNat := by
  simp [Enqueue.first]

theorem enqueue_failed_honest {c : Enqueue α} {available ret : BitVec 32}
    (h : burst c.behavior c.max available (-ENOBUFS) = .error ret) :
    Return.Honest ⟨.enqueue c, [], ret⟩ := by
  rcases (burst_error h).2 with ⟨hbehavior, rfl⟩ | ⟨hbehavior, rfl, -⟩
  · simp [Return.Honest, hbehavior]
  · simp [Return.Honest, hbehavior]

theorem dequeue_failed_honest {c : Dequeue} {available ret : BitVec 32}
    (h : burst c.behavior c.max available (-ENOENT) = .error ret) :
    Return.Honest (α := α) ⟨.dequeue c, [], ret⟩ := by
  rcases (burst_error h).2 with ⟨hbehavior, rfl⟩ | ⟨hbehavior, rfl, -⟩
  · simp [Return.Honest, hbehavior]
  · simp [Return.Honest, hbehavior]

/-- The flag is above the bits of any number of objects that fits in a ring. -/
theorem and_not_quot_exceed {n : BitVec 32} (h : n.toNat < 2 ^ 31) :
    n &&& ~~~RTE_RING_QUOT_EXCEED = n ∧
      (n ||| RTE_RING_QUOT_EXCEED) &&& ~~~RTE_RING_QUOT_EXCEED = n := by
  have hlow : n &&& ~~~RTE_RING_QUOT_EXCEED = n := by
    apply BitVec.eq_of_toNat_eq
    rw [BitVec.toNat_and]
    exact Nat.and_two_pow_sub_one_of_lt_two_pow h
  refine ⟨hlow, ?_⟩
  rw [BitVec.and_or_distrib_right, hlow]
  simp

theorem enqueue_honest {c : Enqueue α} {r : Ring α} {free_entries n : BitVec 32}
    (h : burst c.behavior c.max free_entries (-ENOBUFS) = .ok n) (hn : n.toNat < 2 ^ 31) :
    Return.Honest ⟨.enqueue c, c.first n, enqueueRet r c.behavior free_entries n⟩ := by
  obtain ⟨-, hmax, hfixed, -⟩ := burst_ok h
  have hbits := and_not_quot_exceed hn
  refine ⟨by rw [length_first]; rfl, ?_⟩
  cases hbehavior : c.behavior with
  | RTE_RING_QUEUE_FIXED =>
    simp only [length_first, hfixed hbehavior, enqueueRet]
    by_cases hmark : r.watermark < r.mask + 1 - free_entries + c.max
    · simp only [if_pos hmark]
      exact Or.inl ⟨Or.inr trivial, trivial⟩
    · simp only [if_neg hmark]
      exact Or.inl ⟨Or.inl trivial, trivial⟩
  | RTE_RING_QUEUE_VARIABLE =>
    simp only [length_first, enqueueRet]
    by_cases hmark : r.watermark < r.mask + 1 - free_entries + n
    · simp only [if_pos hmark, hbits.2]
      exact ⟨trivial, hmax⟩
    · simp only [if_neg hmark, hbits.1]
      exact ⟨trivial, hmax⟩

theorem dequeue_honest {c : Dequeue} {available n : BitVec 32}
    (h : burst c.behavior c.max available (-ENOENT) = .ok n) {objs : List α}
    (hobjs : objs.length = n.toNat) :
    Return.Honest ⟨.dequeue c, objs, dequeueRet c.behavior n⟩ := by
  obtain ⟨-, hmax, hfixed, -⟩ := burst_ok h
  simp only [Return.Honest, dequeueRet]
  cases hbehavior : c.behavior with
  | RTE_RING_QUEUE_FIXED => exact Or.inl ⟨rfl, by rw [hobjs, hfixed hbehavior]⟩
  | RTE_RING_QUEUE_VARIABLE => exact ⟨hobjs.symm, hobjs.trans_le hmax⟩

end PacketPro.Dpdk
