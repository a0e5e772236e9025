import PacketPro.Jvm.Text

/-! # `ApplicationStarter.sendDPDKInformation`

    The configuration travels from `config.properties` through a map of
    strings to the file-scope variables of `DpdkAccess.c`. Nothing on the way
    looks at a value, except that `rxburst` has to be an `int`.
-/

namespace PacketPro.DpdkJava

/-! ## Section 1: Definitions -/

/-- The keys of `config_map`. -/
inductive ConfigKey where
  | RX_BURST
  | TX_BURST
  | FREE_BURST
  | NUMCORES
  | NUMPORTS
  | MEMORY_CHANNELS
  | PROGRAM_ID
  | MEMORY
  | BLACKLIST
  | PROGRAM_NAME
  deriving DecidableEq, Repr

/-- `config_map.get`; `none` is `null`, for a property the file does not have. -/
abbrev ConfigMap : Type := ConfigKey → Option JString

/-- The file-scope variables of `DpdkAccess.c` that the configuration sets;
    `none` is a null pointer. -/
structure NativeVars where
  program_name : Option JString
  memory_channels : Option JString
  memory : Option JString
  program_id : Option JString
  blacklist : List JString
  get_burst : JInt

/-- Their initial values. -/
def NativeVars.initial : NativeVars where
  program_name := none
  memory_channels := none
  memory := none
  program_id := none
  blacklist := []
  get_burst := 32

namespace NativeVars

def nat_set_program_name (v : NativeVars) (value : JString) : NativeVars :=
  { v with program_name := some value }

def nat_set_memory_channels (v : NativeVars) (value : JString) : NativeVars :=
  { v with memory_channels := some value }

def nat_set_memory (v : NativeVars) (value : JString) : NativeVars :=
  { v with memory := some value }

def nat_set_program_id (v : NativeVars) (value : JString) : NativeVars :=
  { v with program_id := some value }

def nat_set_receive_burst (v : NativeVars) (value : JInt) : NativeVars :=
  { v with get_burst := value }

def nat_set_blacklist (v : NativeVars) (values : List JString) : NativeVars :=
  { v with blacklist := values }

end NativeVars

def comma : JChar := jchar ','

/-- A value that is there, or else the end of the call: a `null` is not a
    string for `GetStringUTFChars`, `parseInt` and `split`. The variables set
    so far stay set. -/
def orThrow {α : Type} (value : Option α) (v : NativeVars) : Except NativeVars α :=
  match value with
  | some a => .ok a
  | none => .error v

/-- An error carries the variables as the exception leaves them. -/
def sendDPDKInformation (config_map : ConfigMap) (v : NativeVars) :
    Except NativeVars NativeVars := do
  let v := v.nat_set_program_name (← orThrow (config_map .PROGRAM_NAME) v)
  let v := v.nat_set_memory_channels (← orThrow (config_map .MEMORY_CHANNELS) v)
  let v := v.nat_set_memory (← orThrow (config_map .MEMORY) v)
  let v := v.nat_set_program_id (← orThrow (config_map .PROGRAM_ID) v)
  let v := v.nat_set_receive_burst (← orThrow ((config_map .RX_BURST).bind parseInt) v)
  let bl ← orThrow (config_map .BLACKLIST) v
  return v.nat_set_blacklist (split bl comma)

/-! ## Section 2: What is accepted -/

/-- A step that may throw is passed exactly when its value is there. -/
theorem orThrow_bind_eq_ok {α β : Type} {value : Option α} {v : NativeVars}
    {rest : α → Except NativeVars β} {b : β} :
    (do rest (← orThrow value v)) = .ok b ↔ ∃ a, value = some a ∧ rest a = .ok b := by
  rcases value with _ | a
  · constructor
    · exact nofun
    · rintro ⟨a, h, -⟩
      exact absurd h nofun
  · constructor
    · intro h
      exact ⟨a, rfl, h⟩
    · rintro ⟨a', h, hrest⟩
      rw [Option.some.injEq] at h
      rw [h]
      exact hrest

/-- The values a configuration ends up as, for the six keys that are sent. -/
structure Sends (config_map : ConfigMap) (v : NativeVars) : Prop where
  program_name : config_map .PROGRAM_NAME = v.program_name
  memory_channels : config_map .MEMORY_CHANNELS = v.memory_channels
  memory : config_map .MEMORY = v.memory
  program_id : config_map .PROGRAM_ID = v.program_id
  get_burst : (config_map .RX_BURST).bind parseInt = some v.get_burst
  blacklist : (config_map .BLACKLIST).map (split · comma) = some v.blacklist
  /-- No key but the blacklist and the burst is missing either. -/
  present : v.program_name ≠ none ∧ v.memory_channels ≠ none ∧ v.memory ≠ none ∧
    v.program_id ≠ none

/-- **Accepted configurations**: the call returns exactly when all six values
    are there and `rxburst` is an `int`; the variables then hold the values. -/
theorem sendDPDKInformation_ok_iff (config_map : ConfigMap) (v v' : NativeVars) :
    sendDPDKInformation config_map v = .ok v' ↔ Sends config_map v' := by
  unfold sendDPDKInformation
  simp only [orThrow_bind_eq_ok, pure, Except.pure, Except.ok.injEq]
  constructor
  · rintro ⟨name, hname, channels, hchannels, memory, hmemory, id, hid, burst, hburst, bl, hbl, rfl⟩
    exact ⟨hname, hchannels, hmemory, hid, hburst, by rw [hbl]; rfl,
      ⟨nofun, nofun, nofun, nofun⟩⟩
  · intro h
    obtain ⟨hname, hchannels, hmemory, hid⟩ := h.present
    obtain ⟨name, hname⟩ := Option.ne_none_iff_exists'.mp hname
    obtain ⟨channels, hchannels⟩ := Option.ne_none_iff_exists'.mp hchannels
    obtain ⟨memory, hmemory⟩ := Option.ne_none_iff_exists'.mp hmemory
    obtain ⟨id, hid⟩ := Option.ne_none_iff_exists'.mp hid
    -- read the six values back from the variables and send them again
    obtain ⟨bl, hbl, hsplit⟩ := Option.map_eq_some_iff.mp h.blacklist
    refine ⟨name, h.program_name.trans hname, channels, h.memory_channels.trans hchannels,
      memory, h.memory.trans hmemory, id, h.program_id.trans hid, v'.get_burst, h.get_burst,
      bl, hbl, ?_⟩
    cases v'
    simp_all [NativeVars.nat_set_program_name, NativeVars.nat_set_memory_channels,
      NativeVars.nat_set_memory, NativeVars.nat_set_program_id,
      NativeVars.nat_set_receive_burst, NativeVars.nat_set_blacklist]

/-! ## Section 3: The firewall's configuration -/

/-- The values of the firewall's `config.properties` that are sent. -/
def firewallConfig : ConfigMap := fun
  | .RX_BURST => some (text ['1', '2', '8'])
  | .MEMORY_CHANNELS => some (text ['3'])
  | .PROGRAM_ID => some (text ['f', 'w'])
  | .PROGRAM_NAME => some (text ['f', 'i', 'r', 'e', 'w', 'a', 'l', 'l'])
  | .MEMORY => some (text ['1', '2', '8'])
  | .BLACKLIST => some (text
      ['0', '0', ':', '0', '9', '.', '0', ',', '0', '0', ':', '0', 'a', '.', '0'])
  | .NUMCORES => some (text ['1'])
  | .NUMPORTS => some (text ['0', 'x', '1'])
  | .TX_BURST => some (text ['3', '2'])
  | .FREE_BURST => some (text ['3', '2'])

/-- The variables after the firewall's configuration has been sent. -/
def firewallVars : NativeVars where
  program_name := firewallConfig .PROGRAM_NAME
  memory_channels := firewallConfig .MEMORY_CHANNELS
  memory := firewallConfig .MEMORY
  program_id := firewallConfig .PROGRAM_ID
  blacklist := split (text
    ['0', '0', ':', '0', '9', '.', '0', ',', '0', '0', ':', '0', 'a', '.', '0']) comma
  get_burst := 128

theorem firewallConfig_sent :
    sendDPDKInformation firewallConfig NativeVars.initial = .ok firewallVars := by
  have hrx : parseInt (text ['1', '2', '8']) = some 128 :=
    parseInt_of_digits (by simp [text]) (by simp [text, jchar, IsDigit]) (by
      simp [text, jchar, decimal])
  exact (sendDPDKInformation_ok_iff _ _ _).mpr
    ⟨rfl, rfl, rfl, rfl, hrx, rfl, Option.some_ne_none _, Option.some_ne_none _,
      Option.some_ne_none _, Option.some_ne_none _⟩

end PacketPro.DpdkJava
