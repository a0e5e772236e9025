import Mathlib.Data.Finset.Range
import Mathlib.Data.List.Nodup
import PacketPro.DpdkJava.StartUp
import PacketPro.Jvm.UnsafeAccess

/-! # `createAffinityThreads`: Cores in Range

    A machine with `n` cores numbers them from 0. `createAffinityThreads` takes
    up to `n` threads and gives them cores from 1 on, core 0 being the one of
    the statistics thread. A full list therefore has one thread too many: the
    last one is given core `n`.
-/

namespace PacketPro.DpdkJava

/-! ## Section 1: Assignments -/

/-- Pinning the main thread works exactly for the cores below `n`, now and
    after further affinity calls. -/
def Platform.SucceedsBelow (m : Platform) (n : Int) : Prop :=
  ∀ m' : Platform, m'.setResult = m.setResult → m'.getResult = m.getResult → ∀ core : JInt,
    (nat_set_thread_affinity .main core m').1 = AffinityThread.SUCCESS ↔
      0 ≤ core.toInt ∧ core.toInt < n

/-- An affinity call changes masks, not the answers to come. -/
theorem nat_set_thread_affinity_oracle (self : ThreadId) (core : JInt) (m : Platform) :
    (nat_set_thread_affinity self core m).2.setResult = m.setResult ∧
    (nat_set_thread_affinity self core m).2.getResult = m.getResult := by
  unfold nat_set_thread_affinity
  simp only [Platform.pthread_setaffinity_np, Platform.pthread_getaffinity_np]
  by_cases hset : m.setResult m.calls (CPU_SET core ∅) = 0
  · by_cases hget : m.getResult (m.calls + 1) = 0
    · by_cases hisset : CPU_ISSET core (CPU_SET core ∅) = true <;> simp [hset, hget, hisset]
    · simp [hset, hget]
  · simp [hset]

namespace ApplicationStarter

variable {ρ : Type}

/-- The cores that `createAffinityThreads` gives to the threads of a list. -/
def assignedCores (st : ApplicationStarter ρ) (threads : List ρ) (m : Platform) : List JInt :=
  ((st.createAffinityThreads threads m).1.aff_threads.drop st.aff_threads.length).map
    AffinityThread.core

/-- Every thread has a core of its own among those of the machine, so nothing
    fails on a machine where exactly these can be had. -/
structure CoresInRange (st : ApplicationStarter ρ) (threads : List ρ) (m : Platform) : Prop where
  distinct : (st.assignedCores threads m).Nodup
  range : ∀ core ∈ st.assignedCores threads m,
    0 ≤ core.toInt ∧ core.toInt < st.num_available_cores.toInt
  working : m.SucceedsBelow st.num_available_cores.toInt →
    (st.createAffinityThreads threads m).1.working = true

/-! ## Section 2: The assignment -/

theorem createAffinityThreads_admitted {st : ApplicationStarter ρ} {threads : List ρ}
    (h : (threads.length : Int) ≤ st.num_available_cores.toInt) (m : Platform) :
    st.createAffinityThreads threads m = createLoop threads (BitVec.ofNat 32 1) st m :=
  if_neg (Int.not_lt.mpr h)

/-- An admitted list gets the cores `1 .. n`. -/
theorem assignedCores_eq {st : ApplicationStarter ρ} {threads : List ρ}
    (h : (threads.length : Int) ≤ st.num_available_cores.toInt) (m : Platform) :
    st.assignedCores threads m = (List.range' 1 threads.length).map (BitVec.ofNat 32) := by
  rw [assignedCores, createAffinityThreads_admitted h, List.map_drop, createLoop_cores]
  exact List.drop_left' (List.length_map _)

/-- The core numbers of an admitted list do not overflow. -/
theorem toInt_assigned {st : ApplicationStarter ρ} {threads : List ρ}
    (h : (threads.length : Int) ≤ st.num_available_cores.toInt) {i : Nat}
    (hi : i ∈ List.range' 1 threads.length) : (BitVec.ofNat 32 i).toInt = i := by
  have hmax := st.num_available_cores.toInt_lt
  have hrange := List.mem_range'_1.mp hi
  have hlt : i < 2 ^ 31 := by omega
  exact UnsafeAccess.toInt_ofNat hlt

theorem assignedCores_nodup {st : ApplicationStarter ρ} {threads : List ρ}
    (h : (threads.length : Int) ≤ st.num_available_cores.toInt) (m : Platform) :
    (st.assignedCores threads m).Nodup := by
  rw [assignedCores_eq h]
  apply List.Nodup.map_on _ List.nodup_range'
  intro i hi j hj heq
  have htoInt := congrArg BitVec.toInt heq
  rw [toInt_assigned h hi, toInt_assigned h hj] at htoInt
  omega

/-- The affinity calls succeed as long as the cores exist. -/
theorem affinityResults_succeed (threads : List ρ) (c : Nat) {n : Int} (hn : n ≤ 2 ^ 31)
    (hc : (c + threads.length : Int) ≤ n) (m : Platform) (hm : m.SucceedsBelow n) :
    (StartUpCall.affinityResults threads (BitVec.ofNat 32 c) m).any (· ≠ 1) = false := by
  induction threads generalizing c m with
  | nil => rfl
  | cons ct threads ih =>
    rw [List.length_cons] at hc
    have hnext : BitVec.ofNat 32 c + 1 = BitVec.ofNat 32 (c + 1) := (BitVec.ofNat_add c 1).symm
    have hcore : (BitVec.ofNat 32 c).toInt = c := UnsafeAccess.toInt_ofNat (by omega)
    have hsuccess : (nat_set_thread_affinity .main (BitVec.ofNat 32 c) m).1 = 1 :=
      (hm m rfl rfl _).mpr ⟨by omega, by omega⟩
    -- what the calls return does not depend on the masks set so far
    obtain ⟨hset, hget⟩ := nat_set_thread_affinity_oracle .main (BitVec.ofNat 32 c) m
    have hrest := ih (c + 1) (by push_cast; omega)
      (nat_set_thread_affinity .main (BitVec.ofNat 32 c) m).2
      fun m' hset' hget' => hm m' (hset'.trans hset) (hget'.trans hget)
    simp only [StartUpCall.affinityResults, List.any_cons, hsuccess, hnext, hrest, ne_eq,
      not_true_eq_false, decide_false, Bool.or_self]

/-! ## Section 3: Which lists stay in range -/

/-- **Main**: of the lists that are admitted, those with fewer threads than
    there are cores stay in range, and the full ones do not. -/
theorem coresInRange_iff (st : ApplicationStarter ρ) (threads : List ρ) (m : Platform)
    (_hcores : 1 ≤ st.num_available_cores.toInt) (hworking : st.working = true)
    (hadmitted : (threads.length : Int) ≤ st.num_available_cores.toInt) :
    st.CoresInRange threads m ↔ (threads.length : Int) < st.num_available_cores.toInt := by
  have hmax := st.num_available_cores.toInt_lt
  constructor
  · intro h
    by_contra hfull
    -- the last thread has the core behind the last one
    have hpos : 1 ≤ threads.length := by omega
    have hlast : threads.length ∈ List.range' 1 threads.length :=
      List.mem_range'_1.mpr ⟨hpos, by omega⟩
    have hrange := h.range (BitVec.ofNat 32 threads.length) (by
      rw [assignedCores_eq hadmitted]
      exact List.mem_map_of_mem hlast)
    rw [toInt_assigned hadmitted hlast] at hrange
    omega
  · intro hroom
    refine ⟨assignedCores_nodup hadmitted m, ?_, ?_⟩
    · rw [assignedCores_eq hadmitted]
      intro core hcore
      obtain ⟨i, hi, rfl⟩ := List.mem_map.mp hcore
      have hbounds := List.mem_range'_1.mp hi
      rw [toInt_assigned hadmitted hi]
      omega
    · intro hm
      rw [createAffinityThreads_admitted hadmitted, createLoop_working, hworking,
        affinityResults_succeed threads 1 (by omega) (by push_cast; omega) m hm]
      rfl

/-- A machine with `n` cores: a mask is refused if it has none of them. -/
def machine (n : Nat) : Platform where
  setResult := fun _ cpuset => if ∃ core ∈ cpuset, core < n then 0 else 22
  getResult := fun _ => 0
  calls := 0
  mask := fun _ => Finset.range n
  running := [.main]

/-- Such machines are what the calls are meant for, up to the size of a set. -/
theorem machine_succeedsBelow {n : Nat} (hn : n ≤ CPU_SETSIZE) : (machine n).SucceedsBelow n := by
  intro m' hset hget core
  have hsize : CPU_SETSIZE = 1024 := rfl
  have hcore : 0 ≤ core.toInt ∧ core.toInt < n ↔ core.toNat < n := by
    have hlt := core.isLt
    rw [BitVec.toInt_eq_toNat_cond]
    split <;> omega
  have hset' : m'.setResult m'.calls (CPU_SET core ∅) = 0 ↔ core.toNat < n := by
    rw [hset]
    unfold machine CPU_SET
    by_cases hbit : core.toNat < CPU_SETSIZE
    · simp [hbit]
    · simp [hbit]
      omega
  have hget' : m'.getResult (m'.calls + 1) = 0 := by
    rw [hget]
    rfl
  rw [hcore]
  unfold nat_set_thread_affinity AffinityThread.SUCCESS
  simp only [Platform.pthread_setaffinity_np, Platform.pthread_getaffinity_np]
  by_cases hbelow : core.toNat < n
  · have hisset : CPU_ISSET core (CPU_SET core ∅) = true := by
      have hbit : core.toNat < CPU_SETSIZE := by omega
      simp [CPU_ISSET, CPU_SET, hbit]
    simp [hset'.mpr hbelow, hget', hisset, hbelow]
  · have hrefused : m'.setResult m'.calls (CPU_SET core ∅) ≠ 0 := fun h => hbelow (hset'.mp h)
    simp [hrefused, hbelow]

/-- Three threads on four cores. -/
theorem coresInRange_three_of_four :
    (new 4 : ApplicationStarter Unit).CoresInRange [(), (), ()] (machine 4) ∧
    ((new 4 : ApplicationStarter Unit).createAffinityThreads [(), (), ()]
      (machine 4)).1.working = true := by
  have h := (coresInRange_iff (new 4) [(), (), ()] (machine 4) (by decide) rfl (by decide)).mpr
    (by decide)
  exact ⟨h, h.working (machine_succeedsBelow (by decide))⟩

/-- Four threads on four cores are admitted, and the last one is refused. -/
theorem not_coresInRange_four_of_four :
    ¬ (new 4 : ApplicationStarter Unit).CoresInRange [(), (), (), ()] (machine 4) ∧
    ((new 4 : ApplicationStarter Unit).createAffinityThreads [(), (), (), ()]
      (machine 4)).1.working = false := by
  refine ⟨?_, by decide⟩
  intro h
  have hrange := h.range 4 (by decide)
  exact absurd hrange.2 (by decide)

end ApplicationStarter

end PacketPro.DpdkJava
