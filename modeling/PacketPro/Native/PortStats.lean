import PacketPro.Framework.Meters
import Mathlib.Data.BitVec

/-! # `do_stats`: The Counters of the NIC, Second by Second

    Four programs print what port 0 has counted since they last looked: the
    native side of both versions of the framework (`nat_start_stats`, once a
    second, five counters) and the two C applications (a periodic timer, two
    counters). They keep the last reading in globals that start at zero.

    The counters of the NIC are 64 bits wide and wrap around. The differences
    are taken modulo 2^64 as well, so that a line is right whenever less than
    2^64 was counted since the line before it, and all lines add up.
-/

open Meters

namespace PacketPro

/-! ## Section 1: Definitions -/

/-- The fields of `struct rte_eth_stats` that the programs print. -/
inductive Counter where
  | ibytes
  | ipackets
  | imissed
  | ierrors
  | opackets
  deriving DecidableEq, Repr

/-- A reading of the counters; also the globals `pre_ibytes` and so on. -/
abbrev EthStats : Type := Counter → BitVec 64

/-- A `printf` of a counter: the text before the number and behind it. -/
structure Line where
  counter : Counter
  before : String
  after : String

/-- The text that is printed for a difference. -/
def Line.text (l : Line) (diff : BitVec 64) : String :=
  l.before ++ toString diff.toNat ++ l.after

/-- The lines of `do_stats` in `DpdkJava/DpdkAccess.c`. -/
def DpdkJava.statsLines : List Line :=
  [⟨.ibytes, "Bytes: ", "\n"⟩, ⟨.ipackets, "Packets: ", "\n"⟩, ⟨.imissed, "Missed: ", "\n"⟩,
    ⟨.ierrors, "Errors: ", "\n"⟩, ⟨.opackets, "Sent: ", "\n"⟩]

/-- The lines of `do_stats` in `DpdkJava-R/DpdkAccess.c`. -/
def DpdkJavaR.statsLines : List Line :=
  [⟨.ibytes, "Bytes: ", "\n"⟩, ⟨.ipackets, "Packets: ", "\n"⟩, ⟨.imissed, "Missed: ", "\n"⟩,
    ⟨.ierrors, "Errors: ", "\n"⟩, ⟨.opackets, "Sent: ", "\n\n"⟩]

/-- The lines of `do_stats` in both C applications. -/
def CApps.statsLines : List Line :=
  [⟨.ibytes, "Bytes: ", "\n"⟩, ⟨.ipackets, "Packets: ", "\n"⟩]

/-- The differences of one call, in the order of the lines. A counter that has
    no line keeps its old value. -/
def statsLoop (stats : EthStats) : List Line → EthStats → List (BitVec 64) × EthStats
  | [], pre => ([], pre)
  | l :: lines, pre =>
    let diff := stats l.counter - pre l.counter
    let pre := Function.update pre l.counter (stats l.counter)
    let (diffs, pre) := statsLoop stats lines pre
    (diff :: diffs, pre)

/-- What `do_stats` prints. -/
def statsText (lines : List Line) (diffs : List (BitVec 64)) : List String :=
  List.zipWith Line.text lines diffs

/-- `do_stats`: the differences that it prints, and the globals behind it. -/
def do_stats (lines : List Line) (pre stats : EthStats) : List (BitVec 64) × EthStats :=
  statsLoop stats lines pre

/-- One call of `do_stats` for each reading. -/
def statsRun (lines : List Line) : EthStats → List EthStats → List (List (BitVec 64))
  | _, [] => []
  | pre, stats :: readings =>
    let (diffs, pre) := do_stats lines pre stats
    diffs :: statsRun lines pre readings

/-- The globals when the program starts. -/
def preStart : EthStats := fun _ => 0

/-- The numbers of the line `j`, one for each call. -/
def column (j : Nat) (rows : List (List (BitVec 64))) : List (BitVec 64) :=
  rows.map fun row => row.getD j 0

/-- What a NIC has really counted: `count c k` of the counter `c` when the
    `k`-th reading is taken, and less than 2^64 between two readings. -/
structure Counts (count : Counter → Nat → Nat) : Prop where
  start : ∀ c, count c 0 = 0
  mono : ∀ c k, count c k ≤ count c (k + 1)
  step : ∀ c k, count c (k + 1) < count c k + 2 ^ 64

/-- The first `n` readings of such a NIC, behind the start of the program. -/
def readingsOf (count : Counter → Nat → Nat) (n : Nat) : List EthStats :=
  (List.range n).map fun k c => BitVec.ofNat 64 (count c (k + 1))

/-- The programs. -/
def statsPrograms : List (List Line) :=
  [DpdkJava.statsLines, DpdkJavaR.statsLines, CApps.statsLines]

/-! ## Section 2: One call -/

section call
variable {lines : List Line} (stats : EthStats)

theorem statsLoop_pre_other (lines : List Line) (pre : EthStats) {c : Counter}
    (hc : c ∉ lines.map Line.counter) : (statsLoop stats lines pre).2 c = pre c := by
  induction lines generalizing pre with
  | nil => rfl
  | cons l lines ih =>
    rw [List.map_cons, List.mem_cons, not_or] at hc
    exact (ih _ hc.2).trans (Function.update_of_ne hc.1 _ _)

/-- No counter has two lines: each line shows the reading less the global, and
    then the globals are the reading. -/
theorem statsLoop_spec (hnodup : (lines.map Line.counter).Nodup) (pre : EthStats) :
    (statsLoop stats lines pre).1 =
      lines.map (fun l => stats l.counter - pre l.counter) ∧
    ∀ l ∈ lines, (statsLoop stats lines pre).2 l.counter = stats l.counter := by
  induction lines generalizing pre with
  | nil => exact ⟨rfl, fun l hl => absurd hl List.not_mem_nil⟩
  | cons l lines ih =>
    rw [List.map_cons, List.nodup_cons] at hnodup
    obtain ⟨hnot, hnodup⟩ := hnodup
    obtain ⟨hdiffs, hpre⟩ := ih hnodup (Function.update pre l.counter (stats l.counter))
    -- the update of this line's global does not show in the lines behind it
    have hkept : ∀ l' ∈ lines, l'.counter ≠ l.counter := by
      intro l' hl' heq
      exact hnot (heq ▸ List.mem_map_of_mem hl')
    constructor
    · rw [List.map_cons]
      refine congrArg (_ :: ·) (hdiffs.trans (List.map_congr_left ?_))
      intro l' hl'
      rw [Function.update_of_ne (hkept l' hl')]
    · intro l' hl'
      rcases List.mem_cons.mp hl' with rfl | hrest
      · exact (statsLoop_pre_other stats lines _ hnot).trans (Function.update_self ..)
      · exact hpre l' hrest

end call

/-! ## Section 3: Every run -/

section run
variable {lines : List Line}

/-- **Run lemma**: a column shows the differences of its counter. -/
theorem statsRun_column (hnodup : (lines.map Line.counter).Nodup) {j : Nat} {l : Line}
    (hj : lines[j]? = some l) (pre : EthStats) (readings : List EthStats) :
    column j (statsRun lines pre readings) =
      differences (pre l.counter) (readings.map fun stats => stats l.counter) := by
  induction readings generalizing pre with
  | nil => rfl
  | cons stats readings ih =>
    obtain ⟨hdiffs, hpre⟩ := statsLoop_spec stats hnodup pre
    have hl : l ∈ lines := List.mem_of_getElem? hj
    have hrest := ih (statsLoop stats lines pre).2
    rw [hpre l hl] at hrest
    have hhead : (statsLoop stats lines pre).1.getD j 0 = stats l.counter - pre l.counter := by
      rw [hdiffs, List.getD_eq_getElem?_getD, List.getElem?_map, hj]
      rfl
    rw [List.map_cons, differences, ← hrest, ← hhead]
    rfl

/-- **Run lemma**: over a NIC's readings, each row has the true increments. -/
theorem statsRun_counts (hnodup : (lines.map Line.counter).Nodup) {count : Counter → Nat → Nat}
    (hcounts : Counts count) (n k : Nat) (pre : EthStats)
    (hpre : ∀ l ∈ lines, pre l.counter = BitVec.ofNat 64 (count l.counter k)) :
    statsRun lines pre ((List.range' k n).map fun k c => BitVec.ofNat 64 (count c (k + 1))) =
      (List.range' k n).map fun k => lines.map fun l =>
        BitVec.ofNat 64 (count l.counter (k + 1) - count l.counter k) := by
  induction n generalizing k pre with
  | zero => rfl
  | succ n ih =>
    obtain ⟨hdiffs, hnext⟩ :=
      statsLoop_spec (fun c => BitVec.ofNat 64 (count c (k + 1))) hnodup pre
    rw [List.range'_succ, List.map_cons, List.map_cons, statsRun]
    -- the globals behind this call are the reading it was given
    refine congrArg₂ _ (hdiffs.trans (List.map_congr_left ?_)) (ih (k + 1) _ hnext)
    intro l hl
    rw [hpre l hl, sub_eq_iff_eq_add, ← BitVec.ofNat_add,
      Nat.sub_add_cancel (hcounts.mono l.counter k)]

/-- A row of true increments is printed in full. -/
theorem statsText_counts {count : Counter → Nat → Nat} (hcounts : Counts count) (k : Nat) :
    statsText lines (lines.map fun l =>
        BitVec.ofNat 64 (count l.counter (k + 1) - count l.counter k)) =
      lines.map fun l =>
        l.before ++ toString (count l.counter (k + 1) - count l.counter k) ++ l.after := by
  unfold statsText
  rw [List.zipWith_map_right, List.zipWith_self]
  apply List.map_congr_left
  intro l _
  have hmono := hcounts.mono l.counter k
  have hstep := hcounts.step l.counter k
  rw [Line.text, BitVec.toNat_ofNat, Nat.mod_eq_of_lt (by omega)]

end run

theorem statsPrograms_nodup : ∀ lines ∈ statsPrograms, (lines.map Line.counter).Nodup := by
  decide

/-- **Main**: in each of the programs and for every sequence of readings, the
    numbers of a line add up, modulo 2^64, to the last reading of its counter;
    and if less than 2^64 is counted between two readings, then every line of
    every call shows what was counted since the call before, also across a
    wrap-around of the counter. -/
theorem stats_add_up (lines : List Line) (hlines : lines ∈ statsPrograms) :
    (∀ (readings : List EthStats) (j : Nat) (l : Line), lines[j]? = some l →
      (column j (statsRun lines preStart readings)).sum =
        (readings.map fun stats => stats l.counter).getLastD 0) ∧
    (∀ count : Counter → Nat → Nat, Counts count → ∀ n,
      (statsRun lines preStart (readingsOf count n)).map (statsText lines) =
        (List.range n).map fun k => lines.map fun l =>
          l.before ++ toString (count l.counter (k + 1) - count l.counter k) ++ l.after) := by
  have hnodup := statsPrograms_nodup lines hlines
  constructor
  · intro readings j l hj
    rw [statsRun_column hnodup hj, sum_differences]
    exact sub_zero _
  · intro count hcounts n
    have hstart : ∀ l ∈ lines, preStart l.counter = BitVec.ofNat 64 (count l.counter 0) := by
      intro l _
      rw [hcounts.start]
      rfl
    have hrows := statsRun_counts hnodup hcounts n 0 preStart hstart
    rw [readingsOf, List.range_eq_range', hrows, List.map_map]
    apply List.map_congr_left
    intro k _
    exact statsText_counts hcounts k

/-- A NIC whose counters wrap around at every second reading. -/
def wrappingCount (_ : Counter) (k : Nat) : Nat := k * 2 ^ 63

theorem wrappingCount_counts : Counts wrappingCount := by
  constructor
  · intro c
    rfl
  · intro c k
    unfold wrappingCount
    omega
  · intro c k
    unfold wrappingCount
    omega

/-- Three readings with a wrap-around at the second: the packets add up to the
    last reading, and the lines show 2^63 bytes and packets each time. -/
theorem stats_add_up_wrapping :
    (column 1 (statsRun DpdkJava.statsLines preStart (readingsOf wrappingCount 3))).sum =
      BitVec.ofNat 64 (3 * 2 ^ 63) ∧
    (statsRun CApps.statsLines preStart (readingsOf wrappingCount 2)).map
        (statsText CApps.statsLines) =
      (List.range 2).map fun k => CApps.statsLines.map fun l =>
        l.before ++ toString ((k + 1) * 2 ^ 63 - k * 2 ^ 63) ++ l.after := by
  obtain ⟨hsum, -⟩ := stats_add_up DpdkJava.statsLines (by simp [statsPrograms])
  obtain ⟨-, htext⟩ := stats_add_up CApps.statsLines (by simp [statsPrograms])
  refine ⟨(hsum _ 1 _ rfl).trans ?_, htext wrappingCount wrappingCount_counts 2⟩
  simp [readingsOf, wrappingCount, List.range_succ]

end PacketPro
