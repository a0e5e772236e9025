import PacketPro.World
import PacketPro.Framework.CString

/-! # `nat_check_ports_link_status`: Waiting for the Links

    The function asks every port for its link, up to 90 times, until all links
    are up. It answers with a dot for each time that a link was down, and then
    with one record for each port.

    * A pass of the outer loop that polls stops at the first link that is down.
      A pass that reports asks all ports, and is the last one.
    * Which of the two a pass is depends on `print_flag`, which the pass before
      it sets: when all links were up, or when its `count` was 89.

    The counters `portid` and `count` are bytes, and `portid` is compared with
    the `int` `num_ports`: with more than 255 ports the inner loop does not
    end, and the functions run out of fuel.

    The string is built by `concat`, and each write for it is logged. A record
    for a link that is down is one byte longer than its block; the byte behind
    the block is taken to keep the terminator, as it does where `malloc` rounds
    sizes up.
-/

open CString

namespace PacketPro

/-! ## Section 1: Definitions -/

/-- `struct rte_eth_link`; `link_status` is a bit field of one bit. -/
structure EthLink where
  link_speed : BitVec 16
  link_duplex : BitVec 16
  link_status : BitVec 1
  deriving DecidableEq

def ETH_LINK_FULL_DUPLEX : BitVec 16 := 2

def MAX_CHECK_TIME : Nat := 90

def EthLink.Up (link : EthLink) : Prop := link.link_status ≠ 0

instance (link : EthLink) : Decidable link.Up := inferInstanceAs (Decidable (_ ≠ _))

/-- What is logged of `concat`: `old` without its terminator, then `add` with
    it, into a block for both. -/
def concat (old : Building) (add : CStr) : Building :=
  let len1 := old.output.bytes.length
  let len2 := add.bytes.length
  let size := len1 + len2 + 1
  let old := old.write ⟨size, len1⟩
  let old := old.write ⟨size - len1, len2 + 1⟩
  { old with output := old.output.append add }

/-- `output = malloc(1); strcpy(output, "\0")`. -/
def emptyOutput : Building :=
  ⟨.literal ['\x00'], [⟨1, (CStr.literal ['\x00']).bytes.length + 1⟩]⟩

/-- `"Port %d Link Up - speed %u Mbps - %s\n"`. -/
def upRecord (portid : BitVec 8) (link : EthLink) : CStr :=
  .literal (['P', 'o', 'r', 't', ' '] ++ Nat.toDigits 10 portid.toNat ++
    [' ', 'L', 'i', 'n', 'k', ' ', 'U', 'p', ' ', '-', ' ', 's', 'p', 'e', 'e', 'd', ' '] ++
    Nat.toDigits 10 link.link_speed.toNat ++
    [' ', 'M', 'b', 'p', 's', ' ', '-', ' '] ++
    (if link.link_duplex = ETH_LINK_FULL_DUPLEX then
      ['f', 'u', 'l', 'l', '-', 'd', 'u', 'p', 'l', 'e', 'x']
    else
      ['h', 'a', 'l', 'f', '-', 'd', 'u', 'p', 'l', 'e', 'x', '\n']) ++
    ['\n'])

/-- `"Port %d Link Down\n"`. -/
def downRecord (portid : BitVec 8) : CStr :=
  .literal (['P', 'o', 'r', 't', ' '] ++ Nat.toDigits 10 portid.toNat ++
    [' ', 'L', 'i', 'n', 'k', ' ', 'D', 'o', 'w', 'n', '\n'])

/-- The two branches under `print_flag == 1`. The dry run of `snprintf` gives
    the length without the terminator; only one branch adds a byte for it. -/
def printLink (output : Building) (portid : BitVec 8) (link : EthLink) : Building :=
  if link.link_status ≠ 0 then
    let temp := upRecord portid link
    let output := output.write ⟨temp.bytes.length + 1, temp.bytes.length + 1⟩
    concat output temp
  else
    let temp := downRecord portid
    let output := output.write ⟨temp.bytes.length, temp.bytes.length + 1⟩
    concat output temp

/-- The inner loop, with what `rte_eth_link_get_nowait` finds in this pass. It
    returns `all_ports_up` with the output. -/
def portLoop (num_ports : JInt) (link_get : Nat → EthLink) (print_flag : BitVec 8) :
    Nat → BitVec 8 → BitVec 8 → Building → Option (BitVec 8 × Building)
  | 0, _, _, _ => none
  | fuel + 1, portid, all_ports_up, output =>
    if (portid.toNat : Int) < num_ports.toInt then
      let link := link_get portid.toNat
      if print_flag = 1 then
        portLoop num_ports link_get print_flag fuel (portid + 1) all_ports_up
          (printLink output portid link)
      else if link.link_status = 0 then
        some (0, output)
      else
        portLoop num_ports link_get print_flag fuel (portid + 1) all_ports_up output
    else
      some (all_ports_up, output)

/-- The string that is handed to `NewStringUTF`, and the number of passes. -/
structure LinkReport where
  built : Building
  passes : Nat

section check
variable (num_ports : JInt) (reading : Nat → Nat → EthLink) (fuel : Nat)

/-- The outer loop. `passes` counts its passes, and `reading` has an answer for
    each pass and port: no port is asked twice in a pass, so that the answers
    of every run are of this form. -/
def checkLoop : Nat → BitVec 8 → BitVec 8 → Nat → Building → Option LinkReport
  | 0, _, _, _, _ => none
  | left + 1, count, print_flag, passes, output =>
    if count.toNat ≤ MAX_CHECK_TIME then do
      let (all_ports_up, output) ←
        portLoop num_ports (reading passes) print_flag fuel 0 1 output
      if print_flag = 1 then
        return ⟨output, passes + 1⟩
      else
        let output := if all_ports_up = 0 then concat output (.literal ['.']) else output
        let print_flag :=
          if all_ports_up = 1 ∨ count.toNat = MAX_CHECK_TIME - 1 then 1 else print_flag
        checkLoop left (count + 1) print_flag (passes + 1) output
    else
      return ⟨output, passes⟩

def nat_check_ports_link_status : Option LinkReport :=
  checkLoop num_ports reading fuel fuel 0 0 0 emptyOutput

end check

/-! ## Section 2: What is appended and what fits -/

@[simp] theorem concat_output (old : Building) (add : CStr) :
    (concat old add).output = old.output.append add := rfl

/-- `concat` allocates what it writes. -/
@[simp] theorem concat_within (slack : Nat) (old : Building) (add : CStr) :
    (concat old add).Within slack ↔ old.Within slack := by
  have hold : (⟨old.output.bytes.length + add.bytes.length + 1,
      old.output.bytes.length⟩ : Write).Within slack := by
    simp only [Write.Within]
    omega
  have hadd : (⟨old.output.bytes.length + add.bytes.length + 1 - old.output.bytes.length,
      add.bytes.length + 1⟩ : Write).Within slack := by
    simp only [Write.Within]
    omega
  show ((old.write _).write _).Within slack ↔ old.Within slack
  rw [Building.write_within, Building.write_within]
  exact ⟨fun h => h.1.1, fun h => ⟨⟨h, hold⟩, hadd⟩⟩

theorem emptyOutput_within (slack : Nat) : emptyOutput.Within slack := by
  intro w hw
  rw [List.mem_singleton.mp hw]
  exact Nat.le_add_right _ _

/-- The one record of a port. -/
def linkRecord (portid : BitVec 8) (link : EthLink) : CStr :=
  if link.Up then upRecord portid link else downRecord portid

theorem printLink_output (output : Building) (portid : BitVec 8) (link : EthLink) :
    (printLink output portid link).output = output.output.append (linkRecord portid link) := by
  unfold printLink linkRecord
  by_cases hup : link.Up
  · rw [if_pos (show link.link_status ≠ 0 from hup), if_pos hup]
    rfl
  · rw [if_neg (show ¬ link.link_status ≠ 0 from hup), if_neg hup]
    rfl

/-- The branch for a link that is down misses a byte. -/
theorem printLink_within (slack : Nat) (output : Building) (portid : BitVec 8) (link : EthLink) :
    (printLink output portid link).Within slack ↔
      output.Within slack ∧ (link.Up ∨ 1 ≤ slack) := by
  unfold printLink
  by_cases hup : link.Up
  · rw [if_pos (show link.link_status ≠ 0 from hup), concat_within, Building.write_within]
    exact and_congr_right fun _ => iff_of_true (Nat.le_add_right _ _) (Or.inl hup)
  · rw [if_neg (show ¬ link.link_status ≠ 0 from hup), concat_within, Building.write_within]
    refine and_congr_right fun _ => ?_
    simp only [Write.Within, hup, false_or]
    omega

/-! ## Section 3: One pass -/

/-- All ports of a pass are up. -/
def AllUp (n : Nat) (link_get : Nat → EthLink) : Prop := ∀ p < n, (link_get p).Up

instance (n : Nat) (link_get : Nat → EthLink) : Decidable (AllUp n link_get) :=
  inferInstanceAs (Decidable (∀ p < n, (link_get p).Up))

/-- A pass that reports prints the ports in their order. -/
def printAll (link_get : Nat → EthLink) (ports : List Nat) (output : Building) : Building :=
  ports.foldl (fun output p => printLink output (BitVec.ofNat 8 p) (link_get p)) output

theorem printAll_output (link_get : Nat → EthLink) (ports : List Nat) (output : Building) :
    (printAll link_get ports output).output.bytes = output.output.bytes ++
      ports.flatMap fun p => (linkRecord (BitVec.ofNat 8 p) (link_get p)).bytes :=
  Building.foldl_output (fun output p => printLink_output output (BitVec.ofNat 8 p) (link_get p))
    output ports

theorem printAll_within (slack : Nat) (link_get : Nat → EthLink) (ports : List Nat)
    (output : Building) :
    (printAll link_get ports output).Within slack ↔
      output.Within slack ∧ ∀ p ∈ ports, (link_get p).Up ∨ 1 ≤ slack :=
  Building.foldl_within
    (fun output p => printLink_within slack output (BitVec.ofNat 8 p) (link_get p)) output ports

/-- The counters are bytes that do not reach their end. -/
theorem counter_toNat {i : Nat} (hi : i ≤ 255) : (BitVec.ofNat 8 i).toNat = i := by
  rw [BitVec.toNat_ofNat]
  omega

theorem counter_next (i : Nat) : BitVec.ofNat 8 i + 1 = BitVec.ofNat 8 (i + 1) :=
  (BitVec.ofNat_add i 1).symm

section pass
variable {num_ports : JInt} (hports : num_ports.toNat ≤ 255) (link_get : Nat → EthLink)
include hports

/-- The comparison of `portid` with `num_ports`, for a byte that counts up to
    the number of ports. -/
theorem portid_lt_iff {i : Nat} (hi : i ≤ num_ports.toNat) :
    (((BitVec.ofNat 8 i).toNat : Int) < num_ports.toInt) ↔ i < num_ports.toNat := by
  have hint : num_ports.toInt = num_ports.toNat := by
    rw [BitVec.toInt_eq_toNat_cond, if_pos (by omega)]
  rw [counter_toNat (by omega), hint]
  omega

/-- **Reporting**: from port `i` on, each port is printed once. -/
theorem portLoop_print (fuel i : Nat) (hi : i ≤ num_ports.toNat)
    (hfuel : num_ports.toNat < fuel + i) (all_ports_up : BitVec 8) (output : Building) :
    portLoop num_ports link_get 1 fuel (BitVec.ofNat 8 i) all_ports_up output =
      some (all_ports_up, printAll link_get (List.range' i (num_ports.toNat - i)) output) := by
  induction fuel generalizing i output with
  | zero => omega
  | succ fuel ih =>
    rw [portLoop]
    by_cases hlt : i < num_ports.toNat
    · have hbyte := counter_toNat (show i ≤ 255 by omega)
      have hrange : List.range' i (num_ports.toNat - i) =
          i :: List.range' (i + 1) (num_ports.toNat - (i + 1)) := by
        rw [show num_ports.toNat - i = num_ports.toNat - (i + 1) + 1 by omega]
        rfl
      rw [if_pos ((portid_lt_iff hports hi).mpr hlt)]
      simp only [if_pos, hbyte, counter_next]
      rw [ih (i + 1) (by omega) (by omega), hrange]
      rfl
    · have hnone : num_ports.toNat - i = 0 := by omega
      rw [if_neg (mt (portid_lt_iff hports hi).mp hlt), hnone]
      rfl

/-- **Polling**: nothing is printed, and the flag is cleared by the first link
    from port `i` on that is down. -/
theorem portLoop_poll (fuel i : Nat) (hi : i ≤ num_ports.toNat)
    (hfuel : num_ports.toNat < fuel + i) (output : Building) :
    portLoop num_ports link_get 0 fuel (BitVec.ofNat 8 i) 1 output =
      some (if ∀ p < num_ports.toNat, i ≤ p → (link_get p).Up then 1 else 0, output) := by
  induction fuel generalizing i with
  | zero => omega
  | succ fuel ih =>
    have hflag : ¬ (0 : BitVec 8) = 1 := by decide
    rw [portLoop]
    by_cases hlt : i < num_ports.toNat
    · have hbyte := counter_toNat (show i ≤ 255 by omega)
      rw [if_pos ((portid_lt_iff hports hi).mpr hlt)]
      simp only [if_neg hflag, hbyte, counter_next]
      by_cases hdown : (link_get i).link_status = 0
      · rw [if_pos hdown, if_neg fun hall => hall i hlt (Nat.le_refl i) hdown]
      · have hrest : (∀ p < num_ports.toNat, i ≤ p → (link_get p).Up) ↔
            ∀ p < num_ports.toNat, i + 1 ≤ p → (link_get p).Up := by
          refine forall₂_congr fun p _ => ⟨fun hall hp => hall (by omega), fun hall hp => ?_⟩
          rcases Nat.eq_or_lt_of_le hp with rfl | hp
          · exact hdown
          · exact hall hp
        rw [if_neg hdown, ih (i + 1) (by omega) (by omega)]
        simp only [hrest]
    · have hall : ∀ p < num_ports.toNat, i ≤ p → (link_get p).Up := by
        intro p hp hle
        omega
      rw [if_neg (mt (portid_lt_iff hports hi).mp hlt), if_pos hall]

/-- A pass that reports, from the first port. -/
theorem portLoop_reports {fuel : Nat} (hfuel : 256 ≤ fuel) (output : Building) :
    portLoop num_ports link_get 1 fuel 0 1 output =
      some (1, printAll link_get (List.range num_ports.toNat) output) := by
  rw [List.range_eq_range']
  exact portLoop_print hports link_get fuel 0 (Nat.zero_le _) (by omega) 1 output

/-- A pass that polls, from the first port. -/
theorem portLoop_polls {fuel : Nat} (hfuel : 256 ≤ fuel) (output : Building) :
    portLoop num_ports link_get 0 fuel 0 1 output =
      some (if AllUp num_ports.toNat link_get then 1 else 0, output) := by
  have hpoll := portLoop_poll hports link_get fuel 0 (Nat.zero_le _) (by omega) output
  have hall : (∀ p < num_ports.toNat, 0 ≤ p → (link_get p).Up) ↔
      AllUp num_ports.toNat link_get :=
    forall₂_congr fun p _ => ⟨fun h => h (Nat.zero_le p), fun h _ => h⟩
  simp only [hall] at hpoll
  exact hpoll

end pass

/-! ## Section 4: All passes -/

/-- A dot for each pass that found a link down. -/
def dotted : Nat → Building → Building
  | 0, output => output
  | k + 1, output => dotted k (concat output (.literal ['.']))

theorem dotted_output (k : Nat) (output : Building) :
    (dotted k output).output.bytes =
      output.output.bytes ++ List.replicate k (BitVec.ofNat 8 '.'.toNat) := by
  induction k generalizing output with
  | zero => simp [dotted]
  | succ k ih =>
    rw [dotted, ih, List.replicate_succ, concat_output]
    simp [CStr.append, CStr.literal]

theorem dotted_within (slack k : Nat) (output : Building) :
    (dotted k output).Within slack ↔ output.Within slack := by
  induction k generalizing output with
  | zero => rfl
  | succ k ih => rw [dotted, ih, concat_within]

/-- `j` is the first pass from `c` on with all links up, or 90 if there is none
    in time. -/
structure FirstUp (n : Nat) (reading : Nat → Nat → EthLink) (c j : Nat) : Prop where
  le : c ≤ j
  bound : j ≤ 90
  down : ∀ p, c ≤ p → p < j → ¬ AllUp n (reading p)
  up : j < 90 → AllUp n (reading j)

/-- The pass that reports: the next one, or the last there is time for. -/
def reportPass (j : Nat) : Nat := min (j + 1) 90

namespace FirstUp

variable {n : Nat} {reading : Nat → Nat → EthLink} {c j : Nat}

theorem here (hc : c ≤ 90) (hup : AllUp n (reading c)) : FirstUp n reading c c :=
  ⟨Nat.le_refl c, hc, fun _ hp hlt => absurd hlt (Nat.not_lt.mpr hp), fun _ => hup⟩

theorem timeOver (reading : Nat → Nat → EthLink) : FirstUp n reading 90 90 :=
  ⟨Nat.le_refl _, Nat.le_refl _, fun _ hp hlt => absurd hlt (Nat.not_lt.mpr hp),
    fun h => absurd h (Nat.lt_irrefl _)⟩

theorem next (hdown : ¬ AllUp n (reading c)) (h : FirstUp n reading (c + 1) j) :
    FirstUp n reading c j := by
  refine ⟨Nat.le_of_succ_le h.le, h.bound, ?_, h.up⟩
  intro p hp hlt
  rcases Nat.eq_or_lt_of_le hp with rfl | hp
  · exact hdown
  · exact h.down p hp hlt

/-- There is one such pass only. -/
theorem unique {j' : Nat} (h : FirstUp n reading c j) (h' : FirstUp n reading c j') : j = j' := by
  rcases Nat.lt_trichotomy j j' with hlt | heq | hgt
  · exact absurd (h.up (Nat.lt_of_lt_of_le hlt h'.bound)) (h'.down j h.le hlt)
  · exact heq
  · exact absurd (h'.up (Nat.lt_of_lt_of_le hgt h.bound)) (h.down j' h'.le hgt)

/-- Before the report, all passes but the one with all links up found one
    down. -/
theorem countP_down (h : FirstUp n reading 0 j) :
    (List.range (reportPass j)).countP (fun p => ¬ AllUp n (reading p)) = j := by
  have hdown : (List.range j).countP (fun p => ¬ AllUp n (reading p)) = j := by
    rw [List.countP_eq_length.mpr, List.length_range]
    intro p hp
    simpa using h.down p (Nat.zero_le p) (List.mem_range.mp hp)
  by_cases htime : j < 90
  · have hreport : reportPass j = j + 1 := Nat.min_eq_left (by omega)
    rw [hreport, List.range_succ, List.countP_append, hdown]
    simp [h.up htime]
  · obtain rfl : j = 90 := Nat.le_antisymm h.bound (Nat.not_lt.mp htime)
    exact hdown

end FirstUp

/-- The first pass with all links up, computed from the readings. -/
def firstUp (n : Nat) (reading : Nat → Nat → EthLink) : Nat :=
  (List.range MAX_CHECK_TIME).findIdx fun p => AllUp n (reading p)

theorem firstUp_spec (n : Nat) (reading : Nat → Nat → EthLink) :
    FirstUp n reading 0 (firstUp n reading) := by
  have hbound : firstUp n reading ≤ 90 := by
    rw [firstUp]
    refine Nat.le_trans List.findIdx_le_length ?_
    rw [List.length_range, MAX_CHECK_TIME]
  refine ⟨Nat.zero_le _, hbound, ?_, ?_⟩
  · intro p _ hlt
    have hp := List.not_of_lt_findIdx hlt
    simpa using hp
  · intro htime
    have hlt : (List.range MAX_CHECK_TIME).findIdx (fun p => AllUp n (reading p)) <
        (List.range MAX_CHECK_TIME).length := by
      rw [List.length_range]
      exact htime
    have hj := List.findIdx_getElem (w := hlt)
    rw [List.getElem_range] at hj
    exact of_decide_eq_true hj

/-- The outer loop goes on up to a count of 90. -/
theorem count_le {c : Nat} (hc : c ≤ 90) : (BitVec.ofNat 8 c).toNat ≤ MAX_CHECK_TIME := by
  rw [counter_toNat (by omega)]
  exact hc

section passes
variable {num_ports : JInt} (hports : num_ports.toNat ≤ 255) (reading : Nat → Nat → EthLink)
  {fuel : Nat} (hfuel : 256 ≤ fuel)
include hports hfuel

/-- **Step lemma**: a pass that reports is the last one. -/
theorem checkLoop_report (left : Nat) {c : Nat} (hc : c ≤ 90) (output : Building) :
    checkLoop num_ports reading fuel (left + 1) (BitVec.ofNat 8 c) 1 c output =
      some ⟨printAll (reading c) (List.range num_ports.toNat) output, c + 1⟩ := by
  rw [checkLoop, if_pos (count_le hc), portLoop_reports hports _ hfuel]
  rfl

/-- **Step lemma**: a pass with a link down leaves a dot, and asks for a
    report only when the time is over. -/
theorem checkLoop_down (left : Nat) {c : Nat} (hc : c ≤ 89)
    (hdown : ¬ AllUp num_ports.toNat (reading c)) (output : Building) :
    checkLoop num_ports reading fuel (left + 1) (BitVec.ofNat 8 c) 0 c output =
      checkLoop num_ports reading fuel left (BitVec.ofNat 8 (c + 1)) (if c = 89 then 1 else 0)
        (c + 1) (concat output (.literal ['.'])) := by
  rw [checkLoop, if_pos (count_le (by omega)), counter_toNat (by omega),
    portLoop_polls hports _ hfuel, if_neg hdown, counter_next]
  by_cases hlast : c = 89
  · rw [if_pos hlast, hlast]
    rfl
  · have hflag : ¬ ((0 : BitVec 8) = 1 ∨ c = MAX_CHECK_TIME - 1) := by
      rintro (h | h)
      · exact absurd h (by decide)
      · exact hlast h
    rw [if_neg hlast]
    simp only [Option.bind_eq_bind, Option.bind_some, if_neg hflag]
    rfl

/-- **Step lemma**: a pass with all links up asks for a report, for which
    there is time. -/
theorem checkLoop_up (left : Nat) {c : Nat} (hc : c ≤ 89)
    (hup : AllUp num_ports.toNat (reading c)) (output : Building) :
    checkLoop num_ports reading fuel (left + 2) (BitVec.ofNat 8 c) 0 c output =
      some ⟨printAll (reading (c + 1)) (List.range num_ports.toNat) output, c + 2⟩ := by
  rw [checkLoop, if_pos (count_le (by omega)), portLoop_polls hports _ hfuel, if_pos hup,
    counter_next]
  simp only [Option.bind_eq_bind, Option.bind_some, true_or, if_true]
  exact checkLoop_report hports reading hfuel left (by omega) output

/-- **Run lemma**, from pass `c` on. -/
theorem checkLoop_spec (d c left : Nat) (hd : c + d = 89) (hleft : d + 2 ≤ left)
    (output : Building) :
    ∃ j, FirstUp num_ports.toNat reading c j ∧
      checkLoop num_ports reading fuel left (BitVec.ofNat 8 c) 0 c output =
        some ⟨printAll (reading (reportPass j)) (List.range num_ports.toNat)
          (dotted (j - c) output), reportPass j + 1⟩ := by
  induction d generalizing c left output with
  | zero =>
    obtain ⟨left, rfl⟩ : ∃ rest, left = rest + 2 := ⟨left - 2, by omega⟩
    obtain rfl : c = 89 := by omega
    by_cases hup : AllUp num_ports.toNat (reading 89)
    · exact ⟨89, .here (by omega) hup, checkLoop_up hports reading hfuel left (by omega) hup _⟩
    · -- the time is over, and pass 90 reports
      refine ⟨90, .next hup (.timeOver reading), ?_⟩
      rw [checkLoop_down hports reading hfuel (left + 1) (by omega) hup, if_pos rfl]
      exact checkLoop_report hports reading hfuel left (by omega) _
  | succ d ih =>
    obtain ⟨left, rfl⟩ : ∃ rest, left = rest + 2 := ⟨left - 2, by omega⟩
    by_cases hup : AllUp num_ports.toNat (reading c)
    · refine ⟨c, .here (by omega) hup, ?_⟩
      have hreport : reportPass c = c + 1 := Nat.min_eq_left (by omega)
      rw [checkLoop_up hports reading hfuel left (by omega) hup, hreport, Nat.sub_self]
      rfl
    · obtain ⟨j, hj, hrest⟩ := ih (c + 1) (left + 1) (by omega) (by omega)
        (concat output (.literal ['.']))
      have hdots : j - c = j - (c + 1) + 1 := by
        have hle := hj.le
        omega
      refine ⟨j, .next hup hj, ?_⟩
      rw [checkLoop_down hports reading hfuel (left + 1) (by omega) hup,
        if_neg (show ¬ c = 89 by omega), hrest, hdots]
      rfl

/-- What the function returns, with its writes. -/
theorem nat_check_ports_link_status_eq :
    nat_check_ports_link_status num_ports reading fuel =
      some ⟨printAll (reading (reportPass (firstUp num_ports.toNat reading)))
        (List.range num_ports.toNat) (dotted (firstUp num_ports.toNat reading) emptyOutput),
        reportPass (firstUp num_ports.toNat reading) + 1⟩ := by
  obtain ⟨j, hj, hresult⟩ := checkLoop_spec hports reading hfuel 89 0 fuel (by omega)
    (by omega) emptyOutput
  rw [hj.unique (firstUp_spec _ reading)] at hresult
  exact hresult

end passes

/-- **Main**: for every number of ports that a byte can count, and whatever the
    links do, the function returns after at most 91 passes. The string is a dot
    for each earlier pass that found a link down, at most 90, and then one
    record for each port in order, from the readings of the last pass. That
    pass reports and is not counted, even where it finds a link down. The byte
    behind the block of such a record is taken to keep the terminator. -/
theorem nat_check_ports_link_status_reports (num_ports : JInt) (hports : num_ports.toNat ≤ 255)
    (reading : Nat → Nat → EthLink) (fuel : Nat) (hfuel : 256 ≤ fuel) :
    ∃ report k r, nat_check_ports_link_status num_ports reading fuel = some report ∧
      report.passes = r + 1 ∧ report.passes ≤ 91 ∧
      k = (List.range r).countP (fun p => ∃ portid < num_ports.toNat, ¬ (reading p portid).Up) ∧
      k ≤ 90 ∧
      report.built.output.bytes = List.replicate k (BitVec.ofNat 8 '.'.toNat) ++
        (List.range num_ports.toNat).flatMap fun portid =>
          (linkRecord (BitVec.ofNat 8 portid) (reading r portid)).bytes := by
  have hfirst := firstUp_spec num_ports.toNat reading
  refine ⟨_, firstUp num_ports.toNat reading, reportPass (firstUp num_ports.toNat reading),
    nat_check_ports_link_status_eq hports reading hfuel, rfl, ?_, ?_, hfirst.bound, ?_⟩
  · exact Nat.succ_le_succ (Nat.min_le_right _ _)
  · have hcount := hfirst.countP_down
    simp only [AllUp, not_forall, exists_prop] at hcount
    exact hcount.symm
  · rw [printAll_output, dotted_output]
    rfl

/-- The link of port `i` comes up in pass `i`. -/
def lateLinks (pass portid : Nat) : EthLink := ⟨10000, 2, if pass < portid then 0 else 1⟩

/-- Two ports, of which the second is late. -/
theorem nat_check_ports_link_status_reports_late :
    ∃ report k r, nat_check_ports_link_status 2 lateLinks 256 = some report ∧
      report.passes = r + 1 ∧ report.passes ≤ 91 ∧
      k = (List.range r).countP (fun p => ∃ portid < (2 : JInt).toNat, ¬ (lateLinks p portid).Up) ∧
      k ≤ 90 ∧
      report.built.output.bytes = List.replicate k (BitVec.ofNat 8 '.'.toNat) ++
        (List.range 2).flatMap fun portid =>
          (linkRecord (BitVec.ofNat 8 portid) (lateLinks r portid)).bytes :=
  nat_check_ports_link_status_reports 2 (by decide) lateLinks 256 (Nat.le_refl _)

/-! ## Section 5: The writes -/

section writes
variable {num_ports : JInt} (hports : num_ports.toNat ≤ 255) (reading : Nat → Nat → EthLink)
  {fuel : Nat} (hfuel : 256 ≤ fuel)
include hports hfuel

/-- The writes keep within `slack` exactly when no link is down in the pass
    that reports, or one byte does not matter. -/
theorem nat_check_ports_link_status_within_iff (slack : Nat) :
    (∃ report, nat_check_ports_link_status num_ports reading fuel = some report ∧
      report.built.Within slack) ↔
    ∀ p < num_ports.toNat,
      (reading (reportPass (firstUp num_ports.toNat reading)) p).Up ∨ 1 ≤ slack := by
  rw [nat_check_ports_link_status_eq hports reading hfuel]
  simp only [Option.some.injEq, exists_eq_left', printAll_within, dotted_within,
    emptyOutput_within, true_and, List.mem_range]

/-- The writes fit exactly when no link is down in the pass that reports. -/
theorem nat_check_ports_link_status_fits_iff :
    (∃ report, nat_check_ports_link_status num_ports reading fuel = some report ∧
      report.built.Fit) ↔
    AllUp num_ports.toNat (reading (reportPass (firstUp num_ports.toNat reading))) := by
  rw [nat_check_ports_link_status_within_iff hports reading hfuel]
  exact forall₂_congr fun p _ => or_iff_left (by omega)

/-- No write is more than one byte too long, so that the string is the one
    above wherever a block has a byte to spare. -/
theorem nat_check_ports_link_status_within_one :
    ∃ report, nat_check_ports_link_status num_ports reading fuel = some report ∧
      report.built.Within 1 :=
  (nat_check_ports_link_status_within_iff hports reading hfuel 1).mpr
    fun _ _ => Or.inr (Nat.le_refl 1)

end writes

end PacketPro
