import PacketPro.Framework.CString
import PacketPro.DpdkJava.Config

/-! # `nat_init_eal`: The Arguments of the EAL

    Both versions of the framework build the argument vector of `rte_eal_init`
    from the configuration: a fixed part, then `-b` and a name for each
    blacklisted device. The vector has a block of 120 bytes for each entry,
    and both versions reserve nine entries for the fixed part.

    * `DpdkJava` fills all of them. The names come from `String.split`, which
      makes one empty name out of an empty property.
    * `DpdkJava-R` fills seven, shortens `argc` by two, and still puts the
      devices behind the ninth.

    A copy that does not fit, a null pointer and an `argc` beyond an `int` are
    undefined behaviour, for which the functions return `none`.
-/

open CString

namespace PacketPro

open DpdkJava (NativeVars ConfigMap comma sendDPDKInformation)

/-! ## Section 1: Definitions -/

/-- The modified UTF-8 of one code unit, which has no zero byte. -/
def utf8Unit (c : JChar) : List (BitVec 8) :=
  let n := c.toNat
  if 1 ≤ n ∧ n ≤ 0x7F then
    [BitVec.ofNat 8 n]
  else if n ≤ 0x7FF then
    [BitVec.ofNat 8 (0xC0 + n / 64), BitVec.ofNat 8 (0x80 + n % 64)]
  else
    [BitVec.ofNat 8 (0xE0 + n / 4096), BitVec.ofNat 8 (0x80 + n / 64 % 64),
      BitVec.ofNat 8 (0x80 + n % 64)]

theorem utf8Unit_nonzero (c : JChar) : ∀ b ∈ utf8Unit c, b ≠ 0 := by
  have hc := c.isLt
  have hbyte : ∀ k : Nat, 0 < k → k < 256 → BitVec.ofNat 8 k ≠ 0 := by
    intro k hpos hlt hzero
    have htoNat := congrArg BitVec.toNat hzero
    rw [BitVec.toNat_ofNat, Nat.mod_eq_of_lt hlt] at htoNat
    exact Nat.ne_of_gt hpos htoNat
  intro b hb
  unfold utf8Unit at hb
  simp only at hb
  -- one byte, two bytes (also for the zero character), three bytes
  split at hb
  · rw [List.mem_singleton.mp hb]
    exact hbyte _ (by omega) (by omega)
  · split at hb
    · rcases List.mem_pair.mp hb with rfl | rfl
      · exact hbyte _ (by omega) (by omega)
      · exact hbyte _ (by omega) (by omega)
    · simp only [List.mem_cons, List.not_mem_nil, or_false] at hb
      rcases hb with rfl | rfl | rfl
      · exact hbyte _ (by omega) (by omega)
      · exact hbyte _ (by omega) (by omega)
      · exact hbyte _ (by omega) (by omega)

/-- `GetStringUTFChars`. -/
def GetStringUTFChars (s : JString) : CStr where
  bytes := s.flatMap utf8Unit
  nonzero := by
    intro b hb
    obtain ⟨c, -, hc⟩ := List.mem_flatMap.mp hb
    exact utf8Unit_nonzero c b hc

/-- What `rte_eal_init` is called with. -/
structure EalCall where
  argc : Nat
  argv : List Block

/-- The strings that `rte_eal_init` finds in the first `argc` entries. -/
def EalCall.arguments (call : EalCall) : List (Option (List (BitVec 8))) :=
  (call.argv.map contents).take call.argc

/-- The initial value of `argc`, an `int`. -/
def initialArgc (blacklist_count : Nat) : Option Nat :=
  let argc := 1 + 2 + 2 + 2 + 2 + 2 * blacklist_count
  if argc < 2 ^ 31 then some argc else none

/-- The loop over the blacklist. -/
def blacklistLoop : List CStr → Nat → List Block → Option (List Block)
  | [], _, argv => some argv
  | d :: blacklist, i, argv => do
    let argv ← strcpyAt argv (9 + i * 2) (.literal ['-', 'b'])
    let argv ← strcpyAt argv (9 + (i * 2 + 1)) d
    blacklistLoop blacklist (i + 1) argv

def ERROR : JInt := -1
def SUCCESS : JInt := 1

/-- How a native function reports the return value of the DPDK function that
    it wraps. -/
def nativeResult (ret : Int) : JInt := if ret < 0 then ERROR else SUCCESS

namespace DpdkJava

/-- `nat_init_eal` as far as the call of `rte_eal_init`. -/
def ealCall (v : NativeVars) : Option EalCall := do
  let argc ← initialArgc v.blacklist.length
  let argv := List.replicate argc (malloc 120)
  let argv ← strcpyAt argv 0 (GetStringUTFChars (← v.program_name))
  let argv ← strcpyAt argv 1 (.literal ['-', 'c', '\x00'])
  let argv ← strcpyAt argv 2 (.literal ['0', 'x', '1', '\x00'])
  let argv ← strcpyAt argv 3 (.literal ['-', 'n', '\x00'])
  let argv ← strcpyAt argv 4 (GetStringUTFChars (← v.memory_channels))
  let argv ← strcpyAt argv 5
    (.literal ['-', '-', 'f', 'i', 'l', 'e', '-', 'p', 'r', 'e', 'f', 'i', 'x', '\x00'])
  let argv ← strcpyAt argv 6 (GetStringUTFChars (← v.program_id))
  let argv ← strcpyAt argv 7 (.literal ['-', 'm', '\x00'])
  let argv ← strcpyAt argv 8 (GetStringUTFChars (← v.memory))
  let argv ← blacklistLoop (v.blacklist.map GetStringUTFChars) 0 argv
  return ⟨argc, argv⟩

def nat_init_eal (rte_eal_init : EalCall → Int) (v : NativeVars) : Option JInt := do
  let call ← ealCall v
  return nativeResult (rte_eal_init call)

end DpdkJava

namespace DpdkJavaR

/-- `nat_init_eal` as far as the call of `rte_eal_init`. -/
def ealCall (v : NativeVars) : Option EalCall := do
  let argc ← initialArgc v.blacklist.length
  let argv := List.replicate argc (malloc 120)
  let argv ← strcpyAt argv 0 (GetStringUTFChars (← v.program_name))
  let argv ← strcpyAt argv 1 (.literal ['-', 'c', '\x00'])
  let argv ← strcpyAt argv 2 (.literal ['0', 'x', '1', '\x00'])
  let argv ← strcpyAt argv 3 (.literal ['-', 'n', '\x00'])
  let argv ← strcpyAt argv 4 (GetStringUTFChars (← v.memory_channels))
  let argv ← strcpyAt argv 5
    (.literal ['-', '-', 'f', 'i', 'l', 'e', '-', 'p', 'r', 'e', 'f', 'i', 'x', '\x00'])
  let argv ← strcpyAt argv 6 (GetStringUTFChars (← v.program_id))
  -- two entries fewer, since there is no `-m` here
  let argc := argc - 2
  let argv ← blacklistLoop (v.blacklist.map GetStringUTFChars) 0 argv
  return ⟨argc, argv⟩

def nat_init_eal (rte_eal_init : EalCall → Int) (v : NativeVars) : Option JInt := do
  let call ← ealCall v
  return nativeResult (rte_eal_init call)

end DpdkJavaR

/-! ## Section 2: The vector as one sequence of copies -/

/-- The strings that a configuration gives the EAL. -/
structure EalStrings where
  program_name : JString
  memory_channels : JString
  program_id : JString
  memory : JString
  blacklist : List JString

namespace EalStrings

variable (c : EalStrings)

/-- The part that both versions start with. -/
def common : List CStr :=
  [GetStringUTFChars c.program_name, .literal ['-', 'c'], .literal ['0', 'x', '1'],
    .literal ['-', 'n'], GetStringUTFChars c.memory_channels,
    .literal ['-', '-', 'f', 'i', 'l', 'e', '-', 'p', 'r', 'e', 'f', 'i', 'x'],
    GetStringUTFChars c.program_id]

def memoryPair : List CStr := [.literal ['-', 'm'], GetStringUTFChars c.memory]

end EalStrings

/-- A flag and a name for each device. -/
def devicePairs (ds : List JString) : List CStr :=
  ds.flatMap fun d => [.literal ['-', 'b'], GetStringUTFChars d]

/-- The variables hold the strings that both versions read. -/
structure Holds (v : NativeVars) (c : EalStrings) : Prop where
  program_name : v.program_name = some c.program_name
  memory_channels : v.memory_channels = some c.memory_channels
  program_id : v.program_id = some c.program_id
  blacklist : v.blacklist = c.blacklist

theorem blacklistLoop_eq (ds : List JString) (i : Nat) (argv : List Block) :
    blacklistLoop (ds.map GetStringUTFChars) i argv =
      copyFrom (9 + 2 * i) (devicePairs ds) argv := by
  induction ds generalizing i argv with
  | nil => rfl
  | cons d ds ih =>
    have hnext : 9 + 2 * i + 1 + 1 = 9 + 2 * (i + 1) := by omega
    have hname : 9 + 2 * i + 1 = 9 + (i * 2 + 1) := by omega
    have hflag : 9 + 2 * i = 9 + i * 2 := by omega
    simp only [List.map_cons, blacklistLoop, ih, devicePairs, List.flatMap_cons, List.cons_append,
      List.nil_append, copyFrom, hnext]
    rw [hname, hflag]
    rfl

theorem DpdkJava.ealCall_eq {v : NativeVars} {c : EalStrings} (h : Holds v c)
    (hmemory : v.memory = some c.memory) :
    DpdkJava.ealCall v = (initialArgc c.blacklist.length).bind fun argc =>
      (copyFrom 0 (c.common ++ c.memoryPair ++ devicePairs c.blacklist)
        (List.replicate argc (malloc 120))).map fun argv => ⟨argc, argv⟩ := by
  unfold DpdkJava.ealCall
  rw [h.program_name, h.memory_channels, h.program_id, hmemory, h.blacklist]
  simp only [blacklistLoop_eq, Option.bind_eq_bind, Option.bind_some, Option.pure_def]
  congr 1
  funext argc
  rw [copyFrom_append, Option.map_eq_bind]
  simp only [EalStrings.common, EalStrings.memoryPair, List.cons_append, List.nil_append, copyFrom,
    Option.bind_assoc, Option.bind_some]
  rfl

theorem DpdkJavaR.ealCall_eq {v : NativeVars} {c : EalStrings} (h : Holds v c) :
    DpdkJavaR.ealCall v = (initialArgc c.blacklist.length).bind fun argc =>
      ((copyFrom 0 c.common (List.replicate argc (malloc 120))).bind
        (copyFrom 9 (devicePairs c.blacklist))).map fun argv => ⟨argc - 2, argv⟩ := by
  unfold DpdkJavaR.ealCall
  rw [h.program_name, h.memory_channels, h.program_id, h.blacklist]
  simp only [blacklistLoop_eq, Option.bind_eq_bind, Option.bind_some, Option.pure_def]
  congr 1
  funext argc
  rw [Option.map_eq_bind]
  simp only [EalStrings.common, copyFrom, Option.bind_assoc, Option.bind_some]
  rfl

/-! ## Section 3: What the entries hold -/

/-- A string that fits in a block of the vector. -/
def Short (s : JString) : Prop := (GetStringUTFChars s).bytes.length < 120

instance (s : JString) : Decidable (Short s) := inferInstanceAs (Decidable (_ < _))

/-- The configuration strings fit, and the devices have names that survive
    being joined with commas. -/
structure EalStrings.WellFormed (c : EalStrings) : Prop where
  program_name : Short c.program_name
  memory_channels : Short c.memory_channels
  program_id : Short c.program_id
  nonempty : ∀ d ∈ c.blacklist, d ≠ []
  noComma : ∀ d ∈ c.blacklist, comma ∉ d
  devices : ∀ d ∈ c.blacklist, Short d

/-- The vector is handed over with these strings in it. -/
def Passes (call : Option EalCall) (arguments : List CStr) : Prop :=
  ∃ made, call = some made ∧ made.argc = arguments.length ∧
    made.arguments = written arguments

/-- A vector has one length only. -/
theorem Passes.length_eq {call : Option EalCall} {arguments arguments' : List CStr}
    (h : Passes call arguments) (h' : Passes call arguments') :
    arguments.length = arguments'.length := by
  obtain ⟨made, hmade, hargc, -⟩ := h
  obtain ⟨made', hmade', hargc', -⟩ := h'
  rw [hmade, Option.some.injEq] at hmade'
  rw [← hargc, ← hargc', hmade']

/-- A vector with an unwritten entry does not hold strings only. -/
theorem not_passes_of_unwritten {call : Option EalCall} {made : EalCall} (hmade : call = some made)
    {before after : List (Option (List (BitVec 8)))}
    (h : made.arguments = before ++ [none, none] ++ after) (arguments : List CStr) :
    ¬ Passes call arguments := by
  rintro ⟨made', hmade', -, harguments⟩
  rw [hmade, Option.some.injEq] at hmade'
  rw [← hmade', h] at harguments
  -- strings are written, so none of them is a gap
  have hnone : none ∈ written arguments := by
    rw [← harguments]
    simp
  obtain ⟨a, -, ha⟩ := List.mem_map.mp hnone
  exact absurd ha nofun

section entries
variable {c : EalStrings}

/-- Beyond an `int` nothing is handed over. -/
theorem DpdkJava.not_passes_of_overflow {v : NativeVars} (hv : Holds v c)
    (hmemory : v.memory = some c.memory) (hargc : ¬ 9 + 2 * c.blacklist.length < 2 ^ 31)
    (arguments : List CStr) :
    ¬ Passes (DpdkJava.ealCall v) arguments := by
  rintro ⟨made, hmade, -, -⟩
  have hinitial : initialArgc c.blacklist.length = none := if_neg hargc
  rw [ealCall_eq hv hmemory, hinitial] at hmade
  exact absurd hmade nofun

theorem DpdkJavaR.not_passes_of_overflow {v : NativeVars} (hv : Holds v c)
    (hargc : ¬ 9 + 2 * c.blacklist.length < 2 ^ 31) (arguments : List CStr) :
    ¬ Passes (DpdkJavaR.ealCall v) arguments := by
  rintro ⟨made, hmade, -, -⟩
  have hinitial : initialArgc c.blacklist.length = none := if_neg hargc
  rw [ealCall_eq hv, hinitial] at hmade
  exact absurd hmade nofun

theorem devicePairs_length (ds : List JString) : (devicePairs ds).length = 2 * ds.length := by
  induction ds with
  | nil => rfl
  | cons d ds ih =>
    rw [devicePairs, List.flatMap_cons, List.length_append, ← devicePairs, ih]
    simp only [List.length_cons, List.length_nil]
    omega

theorem devicePairs_short {ds : List JString} (h : ∀ d ∈ ds, Short d) :
    ∀ a ∈ devicePairs ds, a.bytes.length < 120 := by
  intro a ha
  obtain ⟨d, hd, hpair⟩ := List.mem_flatMap.mp ha
  rcases List.mem_pair.mp hpair with rfl | rfl
  · decide
  · exact h d hd

theorem common_short (hname : Short c.program_name) (hchannels : Short c.memory_channels)
    (hid : Short c.program_id) : ∀ a ∈ c.common, a.bytes.length < 120 := by
  intro a ha
  simp only [EalStrings.common, List.mem_cons, List.not_mem_nil, or_false] at ha
  rcases ha with rfl | rfl | rfl | rfl | rfl | rfl | rfl
  · exact hname
  · decide
  · decide
  · decide
  · exact hchannels
  · decide
  · exact hid

theorem memoryPair_short (h : Short c.memory) : ∀ a ∈ c.memoryPair, a.bytes.length < 120 := by
  intro a ha
  rcases List.mem_pair.mp ha with rfl | rfl
  · decide
  · exact h

/-- An unwritten vector. -/
theorem contents_replicate (n : Nat) :
    (List.replicate n (malloc 120)).map contents = List.replicate n none := by
  rw [List.map_replicate, contents_malloc]

/-- **DpdkJava**: the fixed part and then the devices, and nothing else. -/
theorem DpdkJava.ealCall_passes {v : NativeVars} (hv : Holds v c)
    (hmemory : v.memory = some c.memory)
    (hcommon : ∀ a ∈ c.common ++ c.memoryPair, a.bytes.length < 120)
    (hdevices : ∀ d ∈ c.blacklist, Short d) (hargc : 9 + 2 * c.blacklist.length < 2 ^ 31) :
    Passes (DpdkJava.ealCall v) (c.common ++ c.memoryPair ++ devicePairs c.blacklist) := by
  have hlen : (c.common ++ c.memoryPair ++ devicePairs c.blacklist).length =
      9 + 2 * c.blacklist.length := by
    rw [List.length_append, devicePairs_length]
    rfl
  have hinitial : initialArgc c.blacklist.length = some (9 + 2 * c.blacklist.length) :=
    if_pos hargc
  have hshort : ∀ a ∈ c.common ++ c.memoryPair ++ devicePairs c.blacklist,
      a.bytes.length < 120 := by
    intro a ha
    rcases List.mem_append.mp ha with hfixed | hpair
    · exact hcommon a hfixed
    · exact devicePairs_short hdevices a hpair
  -- every string fits in its block, and there are as many blocks as strings
  obtain ⟨argv, hcopy, hsized, hview⟩ := copyFrom_spec
    (sized_malloc (9 + 2 * c.blacklist.length) 120) (i := 0) (by rw [hlen]; omega) hshort
  rw [contents_replicate, hlen] at hview
  refine ⟨⟨9 + 2 * c.blacklist.length, argv⟩, ?_, hlen.symm, ?_⟩
  · rw [ealCall_eq hv hmemory, hinitial, Option.bind_some, hcopy]
    rfl
  · rw [EalCall.arguments, hview]
    simp only [List.take_zero, List.nil_append, Nat.zero_add, List.drop_replicate, Nat.sub_self,
      List.replicate_zero, List.append_nil]
    rw [List.take_of_length_le]
    rw [written_length, hlen]

theorem devicePairs_append (ds ds' : List JString) :
    devicePairs (ds ++ ds') = devicePairs ds ++ devicePairs ds' := List.flatMap_append

/-- **DpdkJava-R**: two unwritten entries, and the last device is cut off. -/
theorem DpdkJavaR.ealCall_arguments {v : NativeVars} (hv : Holds v c) (h : c.WellFormed)
    {ds : List JString} {d : JString} (hds : c.blacklist = ds ++ [d])
    (hargc : 9 + 2 * c.blacklist.length < 2 ^ 31) :
    ∃ call, DpdkJavaR.ealCall v = some call ∧
      call.arguments = written c.common ++ [none, none] ++ written (devicePairs ds) := by
  have hcommon : c.common.length = 7 := rfl
  have hpairs := devicePairs_length c.blacklist
  have hinitial : initialArgc c.blacklist.length = some (9 + 2 * c.blacklist.length) :=
    if_pos hargc
  obtain ⟨argv₁, hfixed, hsized₁, hview₁⟩ := copyFrom_spec
    (sized_malloc (9 + 2 * c.blacklist.length) 120) (i := 0) (by rw [hcommon]; omega)
    (common_short h.program_name h.memory_channels h.program_id)
  obtain ⟨argv, hloop, -, hview⟩ := copyFrom_spec hsized₁ (i := 9) (by rw [hpairs])
    (devicePairs_short h.devices)
  refine ⟨⟨9 + 2 * c.blacklist.length - 2, argv⟩, ?_, ?_⟩
  · rw [ealCall_eq hv, hinitial, Option.bind_some, hfixed, Option.bind_some, hloop]
    rfl
  · -- entries 7 and 8 are between the two stretches that were copied
    have hhole : (argv₁.map contents).take 9 =
        written c.common ++ [none, none] := by
      rw [hview₁, contents_replicate, hcommon]
      simp only [List.take_zero, List.nil_append, List.drop_replicate]
      rw [List.take_append, written_length, hcommon, List.take_of_length_le (by simp [hcommon]),
        List.take_replicate]
      congr 1
      have htwo : min (9 - 7) (9 + 2 * c.blacklist.length - (0 + 7)) = 2 := by omega
      rw [htwo]
      rfl
    have hrest : (argv₁.map contents).drop (9 + (devicePairs c.blacklist).length) = [] := by
      rw [List.drop_eq_nil_iff, List.length_map, hsized₁.count, hpairs]
    rw [EalCall.arguments, hview, hhole, hrest, List.append_nil]
    have hcut : 9 + 2 * c.blacklist.length - 2 =
        (written c.common ++ [none, none] ++ written (devicePairs ds)).length := by
      rw [List.length_append, List.length_append, written_length, written_length,
        devicePairs_length, hcommon, hds, List.length_append]
      simp only [List.length_cons, List.length_nil]
      omega
    rw [hcut, hds, devicePairs_append, written_append, ← List.append_assoc, List.take_left]

end entries

/-! ## Section 4: From the configuration to the arguments -/

/-- The configuration has these strings, with the devices joined by commas. -/
structure Gives (config_map : ConfigMap) (c : EalStrings) : Prop where
  program_name : config_map .PROGRAM_NAME = some c.program_name
  memory_channels : config_map .MEMORY_CHANNELS = some c.memory_channels
  program_id : config_map .PROGRAM_ID = some c.program_id
  memory : config_map .MEMORY = some c.memory
  blacklist : config_map .BLACKLIST = some ([comma].intercalate c.blacklist)

/-- Splitting gives the devices back, if there are any. -/
theorem split_devices {ds : List JString} (hne : ds ≠ []) (hnonempty : ∀ d ∈ ds, d ≠ [])
    (hcomma : ∀ d ∈ ds, comma ∉ d) : split ([comma].intercalate ds) comma = ds := by
  obtain ⟨pieces, final, rfl⟩ : ∃ pieces final, ds = pieces ++ [final] :=
    ⟨ds.dropLast, ds.getLast hne, (List.dropLast_append_getLast hne).symm⟩
  have hlast : final ∈ pieces ++ [final] := List.mem_concat_self
  rcases pieces with _ | ⟨piece, pieces⟩
  · have hjoined : [comma].intercalate ([] ++ [final]) = final := by simp [List.intercalate]
    rw [hjoined, split, if_neg (hcomma final hlast)]
    rfl
  · exact split_intercalate hcomma (List.cons_ne_nil _ _) (hnonempty final hlast)

/-- What is sent: the strings as they are, and the pieces of the property. -/
theorem holds_of_sent {config_map : ConfigMap} {vars vars' : NativeVars} {c : EalStrings}
    (hconfig : Gives config_map c) (hsent : sendDPDKInformation config_map vars = .ok vars') :
    Holds vars' { c with blacklist := split ([comma].intercalate c.blacklist) comma } ∧
      vars'.memory = some c.memory := by
  have hsends := (DpdkJava.sendDPDKInformation_ok_iff config_map vars vars').mp hsent
  have hsplit := hsends.blacklist
  rw [hconfig.blacklist, Option.map_some, Option.some.injEq] at hsplit
  exact ⟨⟨hsends.program_name.symm.trans hconfig.program_name,
    hsends.memory_channels.symm.trans hconfig.memory_channels,
    hsends.program_id.symm.trans hconfig.program_id, hsplit.symm⟩,
    hsends.memory.symm.trans hconfig.memory⟩

/-- **Main**, `DpdkJava`: for every accepted configuration the arguments are
    the fixed part and the devices exactly when there is a device, and not so
    many that `argc` is no `int`. -/
theorem DpdkJava.ealCall_passes_iff (config_map : ConfigMap) (vars vars' : NativeVars)
    (c : EalStrings) (hconfig : Gives config_map c) (h : c.WellFormed) (hshort : Short c.memory)
    (hsent : sendDPDKInformation config_map vars = .ok vars') :
    Passes (DpdkJava.ealCall vars') (c.common ++ c.memoryPair ++ devicePairs c.blacklist) ↔
      c.blacklist ≠ [] ∧ 9 + 2 * c.blacklist.length < 2 ^ 31 := by
  obtain ⟨hv, hmemory⟩ := holds_of_sent hconfig hsent
  have hfixed : ∀ a ∈ c.common ++ c.memoryPair, a.bytes.length < 120 := by
    intro a ha
    rcases List.mem_append.mp ha with hcommon | hpair
    · exact common_short h.program_name h.memory_channels h.program_id a hcommon
    · exact memoryPair_short hshort a hpair
  by_cases hne : c.blacklist = []
  · -- the empty property is split into one empty name
    have hsplit : split ([comma].intercalate c.blacklist) comma = [[]] := by
      rw [hne]
      rfl
    rw [hsplit] at hv
    have hpasses := DpdkJava.ealCall_passes hv hmemory hfixed
      (show ∀ d ∈ ([[]] : List JString), Short d by decide) (show 9 + 2 * 1 < 2 ^ 31 by decide)
    constructor
    · intro hnone
      have hlen := hpasses.length_eq hnone
      simp [hne, devicePairs, EalStrings.common, EalStrings.memoryPair] at hlen
    · exact fun hex => absurd hne hex.1
  · rw [split_devices hne h.nonempty h.noComma] at hv
    constructor
    · intro hpasses
      refine ⟨hne, ?_⟩
      by_contra hargc
      exact DpdkJava.not_passes_of_overflow hv hmemory hargc _ hpasses
    · exact fun hex => DpdkJava.ealCall_passes hv hmemory hfixed h.devices hex.2

/-- The strings of the firewall's configuration, with these devices. -/
def firewallStrings (blacklist : List JString) : EalStrings where
  program_name := text ['f', 'i', 'r', 'e', 'w', 'a', 'l', 'l']
  memory_channels := text ['3']
  program_id := text ['f', 'w']
  memory := text ['1', '2', '8']
  blacklist := blacklist

def firewallDevices : List JString :=
  [text ['0', '0', ':', '0', '9', '.', '0'], text ['0', '0', ':', '0', 'a', '.', '0']]

theorem firewallStrings_wellFormed {ds : List JString} (h : ds = [] ∨ ds = firewallDevices) :
    (firewallStrings ds).WellFormed := by
  rcases h with rfl | rfl
  · constructor <;> decide +kernel
  · constructor <;> decide +kernel

/-- The firewall's configuration as it is shipped, with two devices. -/
theorem DpdkJava.ealCall_passes_firewall :
    Passes (DpdkJava.ealCall DpdkJava.firewallVars)
      ((firewallStrings firewallDevices).common ++ (firewallStrings firewallDevices).memoryPair ++
        devicePairs firewallDevices) :=
  (DpdkJava.ealCall_passes_iff DpdkJava.firewallConfig NativeVars.initial DpdkJava.firewallVars
    (firewallStrings firewallDevices) ⟨rfl, rfl, rfl, rfl, rfl⟩
    (firewallStrings_wellFormed (Or.inr rfl)) (by decide) DpdkJava.firewallConfig_sent).mpr
    ⟨by decide, by decide⟩

/-- The firewall's configuration with an empty `blacklist` property, and the
    variables it is sent to. -/
def noDeviceConfig : ConfigMap := Function.update DpdkJava.firewallConfig .BLACKLIST (some [])

def noDeviceVars : NativeVars := { DpdkJava.firewallVars with blacklist := [[]] }

theorem noDeviceConfig_sent :
    sendDPDKInformation noDeviceConfig NativeVars.initial = .ok noDeviceVars := by
  have hshipped := (DpdkJava.sendDPDKInformation_ok_iff _ _ _).mp DpdkJava.firewallConfig_sent
  exact (DpdkJava.sendDPDKInformation_ok_iff _ _ _).mpr
    ⟨rfl, rfl, rfl, rfl, hshipped.get_burst, rfl, ⟨nofun, nofun, nofun, nofun⟩⟩

/-- Without devices, the EAL is given `-b` and an empty name. -/
theorem DpdkJava.ealCall_blacklists_empty_name :
    Gives noDeviceConfig (firewallStrings []) ∧ (firewallStrings []).WellFormed ∧
    Short (firewallStrings []).memory ∧
    sendDPDKInformation noDeviceConfig NativeVars.initial = .ok noDeviceVars ∧
    Passes (DpdkJava.ealCall noDeviceVars) ((firewallStrings []).common ++
      (firewallStrings []).memoryPair ++ [.literal ['-', 'b'], ⟨[], nofun⟩]) ∧
    ¬ Passes (DpdkJava.ealCall noDeviceVars) ((firewallStrings []).common ++
      (firewallStrings []).memoryPair ++ devicePairs []) := by
  have hwf := firewallStrings_wellFormed (Or.inl rfl)
  have hfixed : ∀ a ∈ (firewallStrings [[]]).common ++ (firewallStrings [[]]).memoryPair,
      a.bytes.length < 120 := by decide +kernel
  have hholds : Holds noDeviceVars (firewallStrings [[]]) := ⟨rfl, rfl, rfl, rfl⟩
  have hpasses := DpdkJava.ealCall_passes hholds rfl hfixed (by decide) (by decide)
  refine ⟨⟨rfl, rfl, rfl, rfl, rfl⟩, hwf, by decide, noDeviceConfig_sent, hpasses, ?_⟩
  intro hnone
  exact absurd (hpasses.length_eq hnone) (by decide)

/-! ## Section 5: The second version -/

/-- **Main**, `DpdkJava-R`: with a device on the blacklist the EAL never gets
    the fixed part and the devices. Where `argc` is an `int`, it gets two
    unwritten entries and all devices but the last. -/
theorem DpdkJavaR.ealCall_never_passes (v : NativeVars) (c : EalStrings) (hv : Holds v c)
    (h : c.WellFormed) (hne : c.blacklist ≠ []) :
    ¬ Passes (DpdkJavaR.ealCall v) (c.common ++ devicePairs c.blacklist) ∧
    (9 + 2 * c.blacklist.length < 2 ^ 31 → ∃ call, DpdkJavaR.ealCall v = some call ∧
      call.arguments = written c.common ++ [none, none] ++
        written (devicePairs c.blacklist.dropLast)) := by
  have hsplit : c.blacklist = c.blacklist.dropLast ++ [c.blacklist.getLast hne] :=
    (List.dropLast_append_getLast hne).symm
  refine ⟨?_, fun hargc => DpdkJavaR.ealCall_arguments hv h hsplit hargc⟩
  by_cases hargc : 9 + 2 * c.blacklist.length < 2 ^ 31
  · obtain ⟨call, hcall, harguments⟩ := DpdkJavaR.ealCall_arguments hv h hsplit hargc
    exact not_passes_of_unwritten hcall harguments _
  · exact DpdkJavaR.not_passes_of_overflow hv hargc _

theorem firewallVars_holds : Holds DpdkJava.firewallVars (firewallStrings firewallDevices) :=
  ⟨rfl, rfl, rfl, by decide +kernel⟩

/-- The shipped configuration satisfies the hypotheses. -/
theorem DpdkJavaR.ealCall_never_passes_firewall :
    (firewallStrings firewallDevices).blacklist ≠ [] ∧
    ¬ Passes (DpdkJavaR.ealCall DpdkJava.firewallVars)
      ((firewallStrings firewallDevices).common ++ devicePairs firewallDevices) :=
  ⟨by decide, (DpdkJavaR.ealCall_never_passes DpdkJava.firewallVars
    (firewallStrings firewallDevices) firewallVars_holds
    (firewallStrings_wellFormed (Or.inr rfl)) (by decide)).1⟩

/-- With the shipped configuration entries 7 and 8 are unwritten, and the
    second of the two devices is not passed. -/
theorem DpdkJavaR.ealCall_skips_device :
    ∃ call, DpdkJavaR.ealCall DpdkJava.firewallVars = some call ∧
      call.arguments = written (firewallStrings firewallDevices).common ++ [none, none] ++
        written (devicePairs [text ['0', '0', ':', '0', '9', '.', '0']]) ∧
      ¬ Passes (DpdkJavaR.ealCall DpdkJava.firewallVars)
        ((firewallStrings firewallDevices).common ++ devicePairs firewallDevices) := by
  have hdevices : (firewallStrings firewallDevices).blacklist =
      [text ['0', '0', ':', '0', '9', '.', '0']] ++
        [text ['0', '0', ':', '0', 'a', '.', '0']] := rfl
  obtain ⟨call, hcall, harguments⟩ := DpdkJavaR.ealCall_arguments firewallVars_holds
    (firewallStrings_wellFormed (Or.inr rfl)) hdevices (by decide)
  exact ⟨call, hcall, harguments, not_passes_of_unwritten hcall harguments _⟩

end PacketPro
