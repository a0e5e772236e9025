import PacketPro.EalArguments
import PacketPro.Native.LinkStatus

/-! # `DpdkAccess.c`: Strings and Their Blocks

    Four functions of `DpdkAccess.c` build strings in blocks from `malloc`, and
    each sizes its blocks in its own way.

    * `concat` allocates what it writes.
    * `nat_init_eal` has 120 bytes for each argument, whatever its length.
    * `nat_check_ports_link_status` measures its records with `snprintf`, and
      forgets the terminator of those for a link that is down.
    * `nat_get_mac_info` shrinks its block to one byte before it copies the two
      bytes of `"\n"` to it.
-/

open CString

namespace PacketPro

open DpdkJava (NativeVars)

/-! ## Section 1: Definitions -/

/-- `struct ether_addr`. -/
abbrev EtherAddr : Type := Fin 6 → BitVec 8

/-- `"%02X"`. -/
def hexByte (b : BitVec 8) : List Char :=
  [(Nat.digitChar (b.toNat / 16)).toUpper, (Nat.digitChar (b.toNat % 16)).toUpper]

/-- What `snprintf` leaves in a buffer of `size` bytes. -/
def ether_format_addr (size : Nat) (eth_addr : EtherAddr) : CStr :=
  .literal ((hexByte (eth_addr 0) ++ [':'] ++ hexByte (eth_addr 1) ++ [':'] ++
    hexByte (eth_addr 2) ++ [':'] ++ hexByte (eth_addr 3) ++ [':'] ++
    hexByte (eth_addr 4) ++ [':'] ++ hexByte (eth_addr 5)).take (size - 1))

/-- One pass of the loop: the address, then a line break in the same block
    after `realloc(temp, 1)`. -/
def printMac (output : Building) (eth : EtherAddr) : Building :=
  let temp := ether_format_addr 20 eth
  let output := output.write ⟨20, temp.bytes.length + 1⟩
  let output := concat output temp
  let temp := CStr.literal ['\n']
  let output := output.write ⟨1, temp.bytes.length + 1⟩
  concat output temp

def nat_get_mac_info (num_ports : JInt) (rte_eth_macaddr_get : Nat → EtherAddr) : Building :=
  (List.range num_ports.toInt.toNat).foldl
    (fun output i => printMac output (rte_eth_macaddr_get i)) emptyOutput

/-! ## Section 2: `nat_get_mac_info` -/

/-- `snprintf` keeps to the size it is given. -/
theorem ether_format_addr_length (eth : EtherAddr) :
    (ether_format_addr 20 eth).bytes.length < 20 := by
  have hcut := (List.takeWhile_prefix (fun b : BitVec 8 => decide (b ≠ 0))
    (l := ((hexByte (eth 0) ++ [':'] ++ hexByte (eth 1) ++ [':'] ++ hexByte (eth 2) ++ [':'] ++
      hexByte (eth 3) ++ [':'] ++ hexByte (eth 4) ++ [':'] ++ hexByte (eth 5)).take 19).map
      fun c => BitVec.ofNat 8 c.toNat)).length_le
  rw [List.length_map] at hcut
  exact Nat.lt_succ_of_le (Nat.le_trans hcut (List.length_take_le 19 _))

/-- The line break and its terminator are one byte too long; the address
    fits. -/
theorem printMac_within (slack : Nat) (output : Building) (eth : EtherAddr) :
    (printMac output eth).Within slack ↔ output.Within slack ∧ 1 ≤ slack := by
  have haddr : (⟨20, (ether_format_addr 20 eth).bytes.length + 1⟩ : Write).Within slack :=
    Nat.le_add_right_of_le (ether_format_addr_length eth)
  have hbreak : (⟨1, (CStr.literal ['\n']).bytes.length + 1⟩ : Write).Within slack ↔ 1 ≤ slack := by
    have hlength : (CStr.literal ['\n']).bytes.length = 1 := by decide
    simp only [Write.Within, hlength]
    omega
  unfold printMac
  rw [concat_within, Building.write_within, concat_within, Building.write_within, hbreak]
  exact ⟨fun h => ⟨h.1.1, h.2⟩, fun h => ⟨⟨h.1, haddr⟩, h.2⟩⟩

section macInfo
variable (num_ports : JInt) (rte_eth_macaddr_get : Nat → EtherAddr)

theorem nat_get_mac_info_within_iff (slack : Nat) :
    (nat_get_mac_info num_ports rte_eth_macaddr_get).Within slack ↔
      num_ports.toInt ≤ 0 ∨ 1 ≤ slack := by
  have hfold := Building.foldl_within
    (fun output i => printMac_within slack output (rte_eth_macaddr_get i)) emptyOutput
    (List.range num_ports.toInt.toNat)
  rw [nat_get_mac_info, hfold, and_iff_right (emptyOutput_within slack)]
  simp only [List.mem_range]
  constructor
  · intro h
    by_cases hnone : num_ports.toInt ≤ 0
    · exact Or.inl hnone
    · exact Or.inr (h 0 (by omega))
  · rintro (hnone | hslack) i hi
    · omega
    · exact hslack

/-- The writes fit exactly when there is no port to write about. -/
theorem nat_get_mac_info_fits_iff :
    (nat_get_mac_info num_ports rte_eth_macaddr_get).Fit ↔ num_ports.toInt ≤ 0 := by
  rw [Building.Fit, nat_get_mac_info_within_iff]
  exact or_iff_left (by omega)

end macInfo

/-! ## Section 3: `nat_init_eal` -/

/-- All strings of a configuration fit in a block of the vector. -/
structure EalStrings.AllShort (c : EalStrings) : Prop where
  program_name : Short c.program_name
  memory_channels : Short c.memory_channels
  program_id : Short c.program_id
  memory : Short c.memory
  devices : ∀ d ∈ c.blacklist, Short d

theorem EalStrings.allShort_iff (c : EalStrings) :
    c.AllShort ↔ ∀ a ∈ c.common ++ c.memoryPair ++ devicePairs c.blacklist,
      a.bytes.length < 120 := by
  constructor
  · intro h a ha
    rcases List.mem_append.mp ha with hfixed | hpair
    · rcases List.mem_append.mp hfixed with hcommon | hmemory
      · exact common_short h.program_name h.memory_channels h.program_id a hcommon
      · exact memoryPair_short h.memory a hmemory
    · exact devicePairs_short h.devices a hpair
  · intro h
    refine ⟨h _ ?_, h _ ?_, h _ ?_, h _ ?_, fun d hd => h _ ?_⟩
    · simp [EalStrings.common]
    · simp [EalStrings.common]
    · simp [EalStrings.common]
    · simp [EalStrings.memoryPair]
    · refine List.mem_append_right _ (List.mem_flatMap.mpr ⟨d, hd, ?_⟩)
      simp

/-- The copies of `nat_init_eal` go through exactly when all strings are short
    and `argc` is an `int`. -/
theorem ealCall_isSome_iff {v : NativeVars} {c : EalStrings} (hv : Holds v c)
    (hmemory : v.memory = some c.memory) :
    (DpdkJava.ealCall v).isSome ↔ c.AllShort ∧ 9 + 2 * c.blacklist.length < 2 ^ 31 := by
  rw [DpdkJava.ealCall_eq hv hmemory]
  by_cases hargc : 9 + 2 * c.blacklist.length < 2 ^ 31
  · have hinitial : initialArgc c.blacklist.length = some (9 + 2 * c.blacklist.length) :=
      if_pos hargc
    have hlen : (c.common ++ c.memoryPair ++ devicePairs c.blacklist).length =
        9 + 2 * c.blacklist.length := by
      rw [List.length_append, devicePairs_length]
      rfl
    rw [hinitial, Option.bind_some, Option.isSome_map,
      copyFrom_isSome_iff (sized_malloc (9 + 2 * c.blacklist.length) 120) (by omega),
      ← c.allShort_iff]
    exact ⟨fun h => ⟨h, hargc⟩, fun h => h.1⟩
  · have hinitial : initialArgc c.blacklist.length = none := if_neg hargc
    rw [hinitial]
    exact ⟨nofun, fun h => absurd h.2 hargc⟩

/-! ## Section 4: All four functions -/

/-- **Main**: when the writes fit, for each of the four functions. A copy of
    `nat_init_eal` that does not fit has no result; the other functions log
    their writes. The number of ports is the byte of `rte_eth_dev_count`. -/
theorem nativeStrings_fit_iff (v : NativeVars) (c : EalStrings) (hv : Holds v c)
    (hmemory : v.memory = some c.memory) (num_ports : JInt) (hports : num_ports.toNat ≤ 255)
    (reading : Nat → Nat → EthLink) (fuel : Nat) (hfuel : 256 ≤ fuel)
    (rte_eth_macaddr_get : Nat → EtherAddr) :
    ((DpdkJava.ealCall v).isSome ↔ c.AllShort ∧ 9 + 2 * c.blacklist.length < 2 ^ 31) ∧
    ((∃ report, nat_check_ports_link_status num_ports reading fuel = some report ∧
      report.built.Fit) ↔
      AllUp num_ports.toNat (reading (reportPass (firstUp num_ports.toNat reading)))) ∧
    ((nat_get_mac_info num_ports rte_eth_macaddr_get).Fit ↔ num_ports.toInt ≤ 0) ∧
    (∀ (old : Building) (add : CStr), (concat old add).Fit ↔ old.Fit) :=
  ⟨ealCall_isSome_iff hv hmemory, nat_check_ports_link_status_fits_iff hports reading hfuel,
    nat_get_mac_info_fits_iff num_ports rte_eth_macaddr_get, concat_within 0⟩

/-- The address `90:00:00:00:00:00` on every port. -/
def someAddr (_ : Nat) : EtherAddr := fun i => if i = 0 then 0x90 else 0

theorem firewallStrings_allShort : (firewallStrings firewallDevices).AllShort := by
  constructor <;> decide +kernel

/-- The shipped configuration on one port whose link is up: the arguments and
    the link status fit, the address does not. -/
theorem nativeStrings_fit_onePort :
    (DpdkJava.ealCall DpdkJava.firewallVars).isSome ∧
    (∃ report, nat_check_ports_link_status 1 lateLinks 256 = some report ∧ report.built.Fit) ∧
    ¬ (nat_get_mac_info 1 someAddr).Fit := by
  obtain ⟨heal, hlink, hmac, -⟩ := nativeStrings_fit_iff DpdkJava.firewallVars
    (firewallStrings firewallDevices) firewallVars_holds rfl 1 (by decide) lateLinks 256
    (Nat.le_refl _) someAddr
  refine ⟨heal.mpr ⟨firewallStrings_allShort, by decide⟩, hlink.mpr ?_, mt hmac.mp (by decide)⟩
  intro p hp
  obtain rfl : p = 0 := Nat.lt_one_iff.mp hp
  exact (by decide : (1 : BitVec 1) ≠ 0)

/-- The firewall's configuration under a name of 120 characters. -/
def longName : EalStrings :=
  { firewallStrings firewallDevices with program_name := List.replicate 120 (jchar 'f') }

def longNameVars : NativeVars :=
  { DpdkJava.firewallVars with program_name := some longName.program_name }

/-- One port whose link never comes up, and a long program name: each of the
    three functions writes past the end of a block. -/
theorem nativeStrings_overflow :
    Holds longNameVars longName ∧ ¬ (DpdkJava.ealCall longNameVars).isSome ∧
    (∃ report, nat_check_ports_link_status 1 (fun _ _ => ⟨0, 0, 0⟩) 256 = some report ∧
      ¬ report.built.Fit) ∧
    ¬ (nat_get_mac_info 1 someAddr).Fit := by
  have hholds : Holds longNameVars longName := ⟨rfl, rfl, rfl, firewallVars_holds.blacklist⟩
  have hports : (1 : JInt).toNat ≤ 255 := by decide
  refine ⟨hholds, ?_, ?_, ?_⟩
  · intro hsome
    have hshort := ((ealCall_isSome_iff hholds rfl).mp hsome).1.program_name
    exact absurd hshort (by decide +kernel)
  · obtain ⟨report, hreport, -⟩ := nat_check_ports_link_status_within_one hports
      (fun _ _ => ⟨0, 0, 0⟩) (Nat.le_refl 256)
    refine ⟨report, hreport, fun hfit => ?_⟩
    have hall := (nat_check_ports_link_status_fits_iff hports (fun _ _ => ⟨0, 0, 0⟩)
      (Nat.le_refl 256)).mp ⟨report, hreport, hfit⟩
    exact hall 0 (by decide) rfl
  · exact mt (nat_get_mac_info_fits_iff 1 someAddr).mp (by decide)

end PacketPro
