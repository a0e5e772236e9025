import PacketPro.Jvm.HeaderFields
import PacketPro.Jvm.Verdict

/-! # The Byte Order of the Getters

    Headers are in network byte order, and `UnsafeAccess` reads in the byte
    order of the host. A getter of several bytes therefore returns the number
    that the header encodes exactly when its bytes read the same in both
    directions. `Utils.swap`, which would turn one order into the other, is
    called nowhere.

    The version of an IPv6 header is the upper nibble of its first byte, where
    `whichIP` finds it. `Ipv6Packet.getVersion` looks for it in the fourth.
-/

open ByteMem

namespace PacketPro

/-! ## Section 1: What a header encodes -/

/-- The number that these bytes of the header encode in network byte order. -/
def Packet.encoded (p : Packet) (m : Memory 64) (off n : Nat) : Nat :=
  ofBytesBE (bytesAt m (cell p.packet_pointer off) n)

/-- These bytes of the header read the same in both directions. -/
def Packet.Symmetric (p : Packet) (m : Memory 64) (off n : Nat) : Prop :=
  (bytesAt m (cell p.packet_pointer off) n).reverse = bytesAt m (cell p.packet_pointer off) n

/-- The getters of several bytes return what the header encodes, and the
    version of an IPv4 header is the one that `whichIP` reports. -/
structure Ipv4Packet.Decodes (p : Packet) (ua : UnsafeAccess) (w : World) : Prop where
  getLength : (getLength p ua w).1.toNat = p.encoded w.mem TOTAL_LENGTH_OFFSET 2
  getPacketId : (getPacketId p ua w).1.toNat = p.encoded w.mem PACKET_ID_OFFSET 2
  getFragmentOffset :
    (getFragmentOffset p ua w).1.toNat = p.encoded w.mem FRAGMENT_OFFSET_OFFSET 2
  getHdrChecksum : (getHdrChecksum p ua w).1.toNat = p.encoded w.mem HDR_CHECKSUM_OFFSET 2
  getSrcAddr : (getSrcAddr p ua w).1.toNat = p.encoded w.mem SRC_ADDR_OFFSET 4
  getDst_Addr : (getDst_Addr p ua w).1.toNat = p.encoded w.mem DST_ADDR_OFFSET 4
  getVersion : p.versionNibble w.mem = 4 → (getVersion p ua w).1 = (p.whichIP ua w).1

/-- The same for the getters of an `Ipv6Packet`. -/
structure Ipv6Packet.Decodes (p : Packet) (ua : UnsafeAccess) (w : World) : Prop where
  getVtcFlow : (getVtcFlow p ua w).1.toNat = p.encoded w.mem VTC_FLOW_OFFSET 4
  getLength : (getLength p ua w).1.toNat = p.encoded w.mem PAYLOAD_LENGTH_OFFSET 2
  getVersion : p.versionNibble w.mem = 6 → (getVersion p ua w).1 = (p.whichIP ua w).1

/-! ## Section 2: What the getters return -/

section getters
variable (p : Packet) (ua : UnsafeAccess) (w : World)

theorem getShort_encoded_iff (off : Nat) :
    ((p.seek off ua).getShort w).1.toNat = p.encoded w.mem off 2 ↔ p.Symmetric w.mem off 2 := by
  rw [UnsafeAccess.getShort_toNat, p.seek_address]
  exact loadLE_eq_ofBytesBE_iff _ _ _

theorem getInt_encoded_iff (off : Nat) :
    ((p.seek off ua).getInt w).1.toNat = p.encoded w.mem off 4 ↔ p.Symmetric w.mem off 4 := by
  rw [UnsafeAccess.getInt_toNat, p.seek_address]
  exact loadLE_eq_ofBytesBE_iff _ _ _

/-- `whichIP` reports the upper nibble of the first byte if it is a version. -/
theorem whichIP_toNat (h : p.versionNibble w.mem = 4 ∨ p.versionNibble w.mem = 6) :
    (p.whichIP ua w).1.toNat = p.versionNibble w.mem := by
  have hbyte := byte_loadLE w.mem (cell p.packet_pointer 0) 0
  have hnibble := sshiftRight_four (w.mem p.packet_pointer)
  rw [cell_zero] at hbyte
  rw [p.whichIP_fst, cell_zero, hbyte]
  rw [Packet.versionNibble] at h ⊢
  have hversion : (signToUnsignByte (w.mem p.packet_pointer)).sshiftRight 4 = 4 ∨
      (signToUnsignByte (w.mem p.packet_pointer)).sshiftRight 4 = 6 := by
    rcases h with h4 | h6
    · exact Or.inl (BitVec.eq_of_toNat_eq (hnibble.trans h4))
    · exact Or.inr (BitVec.eq_of_toNat_eq (hnibble.trans h6))
  simp only [if_pos hversion]
  exact hnibble

theorem ipv4_getVersion_toNat :
    (Ipv4Packet.getVersion p ua w).1.toNat = p.versionNibble w.mem := by
  have hbyte := byte_loadLE w.mem p.packet_pointer 0
  show (((p.seek VERSION_IHL_OFFSET ua).getByte w).1.sshiftRight 4).toNat = _
  rw [p.seek_getByte, VERSION_IHL_OFFSET, cell_zero, hbyte]
  exact sshiftRight_four _

/-- The shift of the flow label keeps its upper nibble. -/
theorem sshiftRight_twentyEight (x : JInt) :
    (((signToUnsignInt x).sshiftRight 28).setWidth 32).toNat = x.toNat / 2 ^ 28 := by
  have hx := x.isLt
  have hmsb : (signToUnsignInt x).msb = false := by
    rw [signToUnsignInt_eq, BitVec.msb_eq_decide, BitVec.toNat_setWidth]
    simp only [decide_eq_false_iff_not]
    omega
  rw [BitVec.sshiftRight_eq_of_msb_false hmsb, signToUnsignInt_eq, BitVec.toNat_setWidth,
    BitVec.toNat_ushiftRight, BitVec.toNat_setWidth, Nat.shiftRight_eq_div_pow]
  omega

/-- The version of an `Ipv6Packet` is in the fourth byte. -/
theorem ipv6_getVersion_toNat :
    (Ipv6Packet.getVersion p ua w).1.toNat = (w.mem (p.packet_pointer + 1 + 1 + 1)).toNat / 16 := by
  have hlt : loadLE w.mem p.packet_pointer 4 < 2 ^ 32 := loadLE_lt w.mem p.packet_pointer 4
  have h₀ := (w.mem p.packet_pointer).isLt
  have h₁ := (w.mem (p.packet_pointer + 1)).isLt
  have h₂ := (w.mem (p.packet_pointer + 1 + 1)).isLt
  show ((((p.seek Ipv6Packet.VTC_FLOW_OFFSET ua).getInt w).1.sshiftRight 28).setWidth 32).toNat = _
  rw [p.seek_getInt, Ipv6Packet.VTC_FLOW_OFFSET, cell_zero, sshiftRight_twentyEight,
    BitVec.toNat_ofNat, Nat.mod_eq_of_lt hlt]
  simp only [loadLE]
  omega

end getters

/-! ## Section 3: When the getters decode the header -/

theorem Ipv4Packet.decodes_iff (p : Packet) (ua : UnsafeAccess) (w : World) :
    Decodes p ua w ↔ ∀ f, p.Symmetric w.mem (ipv4Layout.off f) (ipv4Layout.size f) := by
  constructor
  · intro h f
    cases f with
    | totalLength => exact (getShort_encoded_iff p ua w _).mp h.getLength
    | packetId => exact (getShort_encoded_iff p ua w _).mp h.getPacketId
    | fragmentOffset => exact (getShort_encoded_iff p ua w _).mp h.getFragmentOffset
    | hdrChecksum => exact (getShort_encoded_iff p ua w _).mp h.getHdrChecksum
    | srcAddr => exact (getInt_encoded_iff p ua w _).mp h.getSrcAddr
    | dstAddr => exact (getInt_encoded_iff p ua w _).mp h.getDst_Addr
    -- a single byte has no order
    | _ => rfl
  · intro h
    refine ⟨(getShort_encoded_iff p ua w _).mpr (h .totalLength),
      (getShort_encoded_iff p ua w _).mpr (h .packetId),
      (getShort_encoded_iff p ua w _).mpr (h .fragmentOffset),
      (getShort_encoded_iff p ua w _).mpr (h .hdrChecksum),
      (getInt_encoded_iff p ua w _).mpr (h .srcAddr),
      (getInt_encoded_iff p ua w _).mpr (h .dstAddr), ?_⟩
    intro h4
    apply BitVec.eq_of_toNat_eq
    rw [ipv4_getVersion_toNat, whichIP_toNat p ua w (Or.inl h4)]

theorem Ipv6Packet.decodes_iff (p : Packet) (ua : UnsafeAccess) (w : World) :
    Decodes p ua w ↔
      p.Symmetric w.mem VTC_FLOW_OFFSET 4 ∧ p.Symmetric w.mem PAYLOAD_LENGTH_OFFSET 2 := by
  constructor
  · intro h
    exact ⟨(getInt_encoded_iff p ua w _).mp h.getVtcFlow,
      (getShort_encoded_iff p ua w _).mp h.getLength⟩
  · rintro ⟨hflow, hlength⟩
    refine ⟨(getInt_encoded_iff p ua w _).mpr hflow,
      (getShort_encoded_iff p ua w _).mpr hlength, ?_⟩
    intro h6
    -- the first byte is the fourth byte of the label as well
    have hfirst : w.mem (p.packet_pointer + 1 + 1 + 1) = w.mem p.packet_pointer := by
      simp only [Packet.Symmetric, VTC_FLOW_OFFSET, cell_zero, bytesAt, List.reverse_cons,
        List.reverse_nil, List.nil_append, List.cons_append, List.cons.injEq] at hflow
      exact hflow.1
    apply BitVec.eq_of_toNat_eq
    rw [ipv6_getVersion_toNat, hfirst, whichIP_toNat p ua w (Or.inr h6)]
    rfl

/-- **Main**: for every header the getters return what it encodes exactly when
    the bytes of each field that they read as a number are symmetric. -/
theorem getters_decode_iff (p : Packet) (ua : UnsafeAccess) (w : World) :
    (Ipv4Packet.Decodes p ua w ↔
      ∀ f, p.Symmetric w.mem (ipv4Layout.off f) (ipv4Layout.size f)) ∧
    (Ipv6Packet.Decodes p ua w ↔
      p.Symmetric w.mem Ipv6Packet.VTC_FLOW_OFFSET 4 ∧
        p.Symmetric w.mem Ipv6Packet.PAYLOAD_LENGTH_OFFSET 2) :=
  ⟨Ipv4Packet.decodes_iff p ua w, Ipv6Packet.decodes_iff p ua w⟩

/-- A memory that holds these bytes from `0x1000` on. -/
def memoryOf (bytes : List (BitVec 8)) : Memory 64 := fun a => bytes.getD (a - 0x1000).toNat 0

/-- A header of 20 bytes, from 10.0.0.1 to 10.0.0.2. -/
def shortIpv4Header : List (BitVec 8) :=
  [0x45, 0, 0, 20, 0, 1, 0, 0, 64, 17, 0x66, 0xD6, 10, 0, 0, 1, 10, 0, 0, 2]

/-- A header of version 6 with a payload of 8 bytes. -/
def shortIpv6Header : List (BitVec 8) :=
  [0x60, 0, 0, 0, 0, 8, 17, 64, 0, 0, 0, 0, 0, 0, 0, 0, 0, 0, 0, 0, 0, 0, 0, 1, 0, 0, 0, 0, 0, 0, 0,
    0, 0, 0, 0, 0, 0, 0, 0, 2]

/-- The total length 20 comes back as 5120, the payload length 8 as 2048, and
    the version 6 as 0. -/
theorem getters_swap_bytes :
    (Ipv4Packet.getLength ⟨0, 0x1000⟩ .new (World.quiet (memoryOf shortIpv4Header))).1 = 5120 ∧
    ¬ Ipv4Packet.Decodes ⟨0, 0x1000⟩ .new (World.quiet (memoryOf shortIpv4Header)) ∧
    (Ipv6Packet.getLength ⟨0, 0x1000⟩ .new (World.quiet (memoryOf shortIpv6Header))).1 = 2048 ∧
    (Ipv6Packet.getVersion ⟨0, 0x1000⟩ .new (World.quiet (memoryOf shortIpv6Header))).1 = 0 ∧
    (Packet.whichIP ⟨0, 0x1000⟩ .new (World.quiet (memoryOf shortIpv6Header))).1 = 6 ∧
    ¬ Ipv6Packet.Decodes ⟨0, 0x1000⟩ .new (World.quiet (memoryOf shortIpv6Header)) := by
  refine ⟨by decide, ?_, by decide, by decide, by decide, ?_⟩
  · intro h
    exact absurd h.getLength (by decide)
  · intro h
    exact absurd h.getLength (by decide)

end PacketPro
