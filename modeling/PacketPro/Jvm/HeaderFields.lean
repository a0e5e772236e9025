import Mathlib.Data.Fintype.Basic
import PacketPro.Jvm.Ipv6Packet

/-! # The Fields of the IP Headers

    The accessors of both packet classes read and write one field of a header
    each. `Accessors` says this once for any class of packets: which layout the
    header has, which field a call belongs to, and what the call stores in it
    or makes of what it finds there. The laws of field access follow from the
    layout alone.

    The byte order is that of the host on both ways, so a setter and its getter
    agree, but a getter of several bytes does not return what a header in
    network byte order encodes.
-/

open ByteMem

namespace PacketPro

/-! ## Section 1: Accessors of a tiled header -/

/-- The accessor calls of a class of packets, with the layout they follow. -/
structure Accessors (C R F : Type) where
  exec : C → Packet → UnsafeAccess → World → R × UnsafeAccess × World
  layout : Layout F
  headerSize : Nat
  /-- The field that a call reads or writes. -/
  field : C → F
  /-- How many bytes of its field a call stores, and the number stored. -/
  stored : C → Option (Nat × Nat)
  /-- What a call returns for the number in its field. -/
  decode : C → Nat → R
  tiles : layout.Tiles headerSize
  headerSize_le : headerSize ≤ 2 ^ 64
  stored_le : ∀ c k v, stored c = some (k, v) → k ≤ layout.size (field c)
  exec_mem : ∀ c p ua w, (exec c p ua w).2.2.mem = (stored c).elim w.mem fun s =>
    storeLE w.mem (cell p.packet_pointer (layout.off (field c))) s.1 s.2
  exec_result : ∀ c p ua w,
    (exec c p ua w).1 = decode c (layout.get w.mem p.packet_pointer (field c))

/-- The laws of field access. `Assigns f set get r` relates a setter of the
    field `f` with its argument to the getter of the field and the result that
    the getter has to return afterwards. -/
structure FieldLaws {C R F : Type}
    (exec : C → Packet → UnsafeAccess → World → R × UnsafeAccess × World) (layout : Layout F)
    (headerSize : Nat) (field : C → F) (Assigns : F → C → C → R → Prop) : Prop where
  get_set : ∀ f set get r, Assigns f set get r → ∀ p ua ua' w,
    (exec get p ua' (exec set p ua w).2.2).1 = r
  get_other : ∀ f set get r, Assigns f set get r → ∀ g, field g ≠ f → ∀ p ua ua' w,
    (exec g p ua' (exec set p ua w).2.2).1 = (exec g p ua' w).1
  frame : ∀ f set get r, Assigns f set get r → ∀ p ua w b,
    b ∉ layout.field p.packet_pointer f → (exec set p ua w).2.2.mem b = w.mem b
  tiles : layout.Tiles headerSize

namespace Accessors

variable {C R F : Type} (A : Accessors C R F)

/-- **Frame**: a call changes no byte outside its field. -/
theorem exec_mem_outside (c : C) (p : Packet) (ua : UnsafeAccess) (w : World) {b : Addr}
    (hb : b ∉ A.layout.field p.packet_pointer (A.field c)) :
    (A.exec c p ua w).2.2.mem b = w.mem b := by
  rw [A.exec_mem]
  cases hstored : A.stored c with
  | none => rfl
  | some s =>
    have hle := A.stored_le c s.1 s.2 hstored
    apply storeLE_of_not_mem
    exact fun hmem => hb (Region.prefix_subset _ hle b hmem)

/-- A call on another field returns what it would have returned before. -/
theorem exec_result_other (c g : C) (hne : A.field g ≠ A.field c) (p : Packet)
    (ua ua' : UnsafeAccess) (w : World) :
    (A.exec g p ua' (A.exec c p ua w).2.2).1 = (A.exec g p ua' w).1 := by
  rw [A.exec_result, A.exec_result, A.exec_mem]
  congr 1
  cases hstored : A.stored c with
  | none => rfl
  | some s =>
    -- the store is confined to one field, the load to another
    have hle := A.stored_le c s.1 s.2 hstored
    exact A.tiles.get_store_other A.headerSize_le _ _ hne hle s.2

/-- A getter after a setter that fills the field. -/
theorem exec_result_self (set get : C) {v : Nat} (hfield : A.field get = A.field set)
    (hstored : A.stored set = some (A.layout.size (A.field set), v)) (p : Packet)
    (ua ua' : UnsafeAccess) (w : World) :
    (A.exec get p ua' (A.exec set p ua w).2.2).1 =
      A.decode get (v % 256 ^ A.layout.size (A.field set)) := by
  rw [A.exec_result, hfield, A.exec_mem, hstored, Option.elim_some]
  congr 1
  exact A.tiles.get_store_self A.headerSize_le _ _ _ v

/-- The laws hold once each setter fills its field with a number that its
    getter decodes. -/
theorem fieldLaws {Assigns : F → C → C → R → Prop}
    (hassigns : ∀ f set get r, Assigns f set get r → A.field set = f ∧ A.field get = f ∧
      ∃ v, A.stored set = some (A.layout.size f, v) ∧
        A.decode get (v % 256 ^ A.layout.size f) = r) :
    FieldLaws A.exec A.layout A.headerSize A.field Assigns where
  get_set := by
    intro f set get r h p ua ua' w
    obtain ⟨rfl, hget, v, hstored, hdecode⟩ := hassigns f set get r h
    rw [A.exec_result_self set get hget hstored, hdecode]
  get_other := by
    intro f set get r h g hg p ua ua' w
    obtain ⟨rfl, -, -⟩ := hassigns f set get r h
    exact A.exec_result_other set g hg p ua ua' w
  frame := by
    intro f set get r h p ua w b hb
    obtain ⟨rfl, -, -⟩ := hassigns f set get r h
    exact A.exec_mem_outside set p ua w hb
  tiles := A.tiles

end Accessors

/-! ## Section 2: `Ipv4Packet` -/

inductive Ipv4Field where
  | versionIhl
  | typeOfService
  | totalLength
  | packetId
  | fragmentOffset
  | timeToLive
  | nextProtoId
  | hdrChecksum
  | srcAddr
  | dstAddr
  deriving DecidableEq, Repr

instance : Fintype Ipv4Field where
  elems := {.versionIhl, .typeOfService, .totalLength, .packetId, .fragmentOffset, .timeToLive,
    .nextProtoId, .hdrChecksum, .srcAddr, .dstAddr}
  complete := by intro f; cases f <;> decide

def ipv4Layout : Layout Ipv4Field where
  off
    | .versionIhl => VERSION_IHL_OFFSET
    | .typeOfService => TYPE_OF_SERVICE_OFFSET
    | .totalLength => TOTAL_LENGTH_OFFSET
    | .packetId => PACKET_ID_OFFSET
    | .fragmentOffset => FRAGMENT_OFFSET_OFFSET
    | .timeToLive => TIME_TO_LIVE_OFFSET
    | .nextProtoId => NEXT_PROTO_ID_OFFSET
    | .hdrChecksum => HDR_CHECKSUM_OFFSET
    | .srcAddr => SRC_ADDR_OFFSET
    | .dstAddr => DST_ADDR_OFFSET
  size
    | .versionIhl | .typeOfService | .timeToLive | .nextProtoId => 1
    | .totalLength | .packetId | .fragmentOffset | .hdrChecksum => 2
    | .srcAddr | .dstAddr => 4

theorem ipv4Layout_tiles : ipv4Layout.Tiles ipv4HdrSize where
  within := by decide
  cover := by decide
  apart := by decide

/-- The field that a call reads or writes. -/
def Ipv4Call.field : Ipv4Call → Ipv4Field
  | .setVersionIhl _ | .getVersionIhl | .getVersion | .whichIP => .versionIhl
  | .setTypeOfService _ | .getTypeOfService => .typeOfService
  | .setTotalLength _ | .getLength => .totalLength
  | .setPacketID _ | .getPacketId => .packetId
  | .setFragmentOffset _ | .getFragmentOffset => .fragmentOffset
  | .setTimeToLive _ | .getTimeToLive => .timeToLive
  | .setNextProtoID _ | .getNextProtoId => .nextProtoId
  | .setHdrChecksum _ | .getHdrChecksum => .hdrChecksum
  | .setSrcAddr _ | .getSrcAddr => .srcAddr
  | .setDstAddr _ | .getDst_Addr => .dstAddr

/-- The bytes and the number that a call stores. -/
def FieldAccess.stored : FieldAccess → Option (Nat × Nat)
  | .load _ _ => none
  | .store _ n v => some (n, v)

theorem Ipv4Call.exec_result_field (c : Ipv4Call) (p : Packet) (ua : UnsafeAccess) (w : World) :
    (c.exec p ua w).1 = c.decode (ipv4Layout.get w.mem p.packet_pointer c.field) := by
  rw [c.exec_result]
  cases c <;> rfl

/-- A setter fills its field. -/
theorem Ipv4Call.stored_size (c : Ipv4Call) (s : Nat × Nat) (h : c.access.stored = some s) :
    s.1 = ipv4Layout.size c.field := by
  cases c <;> cases h <;> rfl

def ipv4Accessors : Accessors Ipv4Call CallResult Ipv4Field where
  exec := Ipv4Call.exec
  layout := ipv4Layout
  headerSize := ipv4HdrSize
  field := Ipv4Call.field
  stored c := c.access.stored
  decode := Ipv4Call.decode
  tiles := ipv4Layout_tiles
  headerSize_le := by decide
  stored_le := fun c k v h => Nat.le_of_eq (c.stored_size (k, v) h)
  exec_mem := by
    intro c p ua w
    rw [c.exec_mem]
    cases c <;> rfl
  exec_result := Ipv4Call.exec_result_field

/-- The setters with every value of the unsigned range of their field. -/
inductive Ipv4Assigns : Ipv4Field → Ipv4Call → Ipv4Call → CallResult → Prop
  | versionIhl (v : JInt) (h : v.toNat < 2 ^ 8) :
    Ipv4Assigns .versionIhl (.setVersionIhl v) .getVersionIhl (.int v)
  | typeOfService (v : JInt) (h : v.toNat < 2 ^ 8) :
    Ipv4Assigns .typeOfService (.setTypeOfService v) .getTypeOfService (.int v)
  | totalLength (v : JInt) (h : v.toNat < 2 ^ 16) :
    Ipv4Assigns .totalLength (.setTotalLength v) .getLength (.int v)
  | packetId (v : JInt) (h : v.toNat < 2 ^ 16) :
    Ipv4Assigns .packetId (.setPacketID v) .getPacketId (.int v)
  | fragmentOffset (v : JInt) (h : v.toNat < 2 ^ 16) :
    Ipv4Assigns .fragmentOffset (.setFragmentOffset v) .getFragmentOffset (.int v)
  | timeToLive (v : JInt) (h : v.toNat < 2 ^ 8) :
    Ipv4Assigns .timeToLive (.setTimeToLive v) .getTimeToLive (.int v)
  | nextProtoId (v : JInt) (h : v.toNat < 2 ^ 8) :
    Ipv4Assigns .nextProtoId (.setNextProtoID v) .getNextProtoId (.int v)
  | hdrChecksum (v : JInt) (h : v.toNat < 2 ^ 16) :
    Ipv4Assigns .hdrChecksum (.setHdrChecksum v) .getHdrChecksum (.int v)
  | srcAddr (v : JLong) (h : v.toNat < 2 ^ 32) :
    Ipv4Assigns .srcAddr (.setSrcAddr v) .getSrcAddr (.long v)
  | dstAddr (v : JLong) (h : v.toNat < 2 ^ 32) :
    Ipv4Assigns .dstAddr (.setDstAddr v) .getDst_Addr (.long v)

/-! What the three unsigned reads make of a value that was stored in range. -/

theorem signToUnsignByte_stored {v : JInt} (h : v.toNat < 2 ^ 8) :
    signToUnsignByte (BitVec.ofNat 8 ((v.setWidth 8).toNat % 256 ^ 1)) = v := by
  rw [signToUnsignByte_eq]
  apply BitVec.eq_of_toNat_eq
  simp only [BitVec.toNat_setWidth, BitVec.toNat_ofNat]
  omega

theorem signToUnsignShort_stored {v : JInt} (h : v.toNat < 2 ^ 16) :
    signToUnsignShort (BitVec.ofNat 16 ((v.setWidth 16).toNat % 256 ^ 2)) = v := by
  rw [signToUnsignShort_eq]
  apply BitVec.eq_of_toNat_eq
  simp only [BitVec.toNat_setWidth, BitVec.toNat_ofNat]
  omega

theorem signToUnsignInt_stored {v : JLong} (h : v.toNat < 2 ^ 32) :
    signToUnsignInt (BitVec.ofNat 32 ((v.setWidth 32).toNat % 256 ^ 4)) = v := by
  rw [signToUnsignInt_eq]
  apply BitVec.eq_of_toNat_eq
  simp only [BitVec.toNat_setWidth, BitVec.toNat_ofNat]
  omega

theorem ipv4_fieldLaws :
    FieldLaws Ipv4Call.exec ipv4Layout ipv4HdrSize Ipv4Call.field Ipv4Assigns := by
  apply ipv4Accessors.fieldLaws
  intro f set get r h
  cases h with
  | versionIhl v h | typeOfService v h | timeToLive v h | nextProtoId v h =>
    exact ⟨rfl, rfl, _, rfl, congrArg CallResult.int (signToUnsignByte_stored h)⟩
  | totalLength v h | packetId v h | fragmentOffset v h | hdrChecksum v h =>
    exact ⟨rfl, rfl, _, rfl, congrArg CallResult.int (signToUnsignShort_stored h)⟩
  | srcAddr v h | dstAddr v h =>
    exact ⟨rfl, rfl, _, rfl, congrArg CallResult.long (signToUnsignInt_stored h)⟩

/-! ## Section 3: `Ipv6Packet` -/

inductive Ipv6Field where
  | vtcFlow
  | payloadLength
  | proto
  | hopLimits
  | srcAddr
  | dstAddr
  deriving DecidableEq, Repr

instance : Fintype Ipv6Field where
  elems := {.vtcFlow, .payloadLength, .proto, .hopLimits, .srcAddr, .dstAddr}
  complete := by intro f; cases f <;> decide

/-- `sizeof(struct ipv6_hdr)`. -/
def ipv6HdrSize : Nat := 40

def ipv6Layout : Layout Ipv6Field where
  off
    | .vtcFlow => Ipv6Packet.VTC_FLOW_OFFSET
    | .payloadLength => Ipv6Packet.PAYLOAD_LENGTH_OFFSET
    | .proto => Ipv6Packet.PROTO_OFFSET
    | .hopLimits => Ipv6Packet.HOP_LIMITS_OFFSET
    | .srcAddr => Ipv6Packet.SRC_ADDR_OFFSET
    | .dstAddr => Ipv6Packet.DST_ADDR_OFFSET
  size
    | .vtcFlow => 4
    | .payloadLength => 2
    | .proto | .hopLimits => 1
    | .srcAddr | .dstAddr => Ipv6Packet.BYTES_IPV6

theorem ipv6Layout_tiles : ipv6Layout.Tiles ipv6HdrSize where
  within := by decide
  cover := by decide
  apart := by decide

namespace Ipv6Call

/-- The field that a call reads or writes. -/
def field : Ipv6Call → Ipv6Field
  | .setVtcFlow _ | .getVtcFlow | .getVersion | .whichIP => .vtcFlow
  | .setPayloadLength _ | .getLength => .payloadLength
  | .setProto _ | .getProto => .proto
  | .setHopLimits _ | .getHopLimits => .hopLimits
  | .setSrcAddr _ | .getSrcAddr => .srcAddr
  | .setDstAddr _ | .getDstAddr => .dstAddr

/-- The bytes and the number that a call stores. -/
def stored : Ipv6Call → Option (Nat × Nat)
  | .setVtcFlow v => some (4, (v.setWidth 32).toNat)
  | .setPayloadLength v => some (2, (v.setWidth 16).toNat)
  | .setProto v | .setHopLimits v => some (1, (v.setWidth 8).toNat)
  | .setSrcAddr addr | .setDstAddr addr => some (min 16 addr.length, ofBytesLE addr)
  | _ => none

/-- What the call makes of the number in its field. -/
def decode (c : Ipv6Call) (x : Nat) : Ipv6Result :=
  match c with
  | .setSrcAddr addr | .setDstAddr addr => .ofLoop (decide (16 ≤ addr.length))
  | .getVersion => .int (((signToUnsignInt (BitVec.ofNat 32 x)).sshiftRight 28).setWidth 32)
  | .getVtcFlow => .long (signToUnsignInt (BitVec.ofNat 32 x))
  | .getLength => .int (signToUnsignShort (BitVec.ofNat 16 x))
  | .getProto | .getHopLimits => .int (signToUnsignByte (BitVec.ofNat 8 x))
  | .getSrcAddr | .getDstAddr => .bytes (bytesLE Ipv6Packet.BYTES_IPV6 x)
  | .whichIP =>
    let version := (signToUnsignByte (BitVec.ofNat 8 x)).sshiftRight 4
    .int (if version = 4 ∨ version = 6 then version else 0)
  | _ => .void

/-- The cursor in front of an address. -/
theorem seek_at (p : Packet) (off : Nat) (ua : UnsafeAccess) :
    (p.seek off ua).At (cell p.packet_pointer off) 0 := UnsafeAccess.setCurrentPointer_at ua _

theorem putBytes_seek_mem (p : Packet) (off : Nat) (addr : List JByte) (ua : UnsafeAccess)
    (w : World) : (Ipv6Packet.putBytes 16 addr (p.seek off ua) w).2.2.mem =
      storeLE w.mem (cell p.packet_pointer off) (min 16 addr.length) (ofBytesLE addr) := by
  have h := Ipv6Packet.putBytes_mem 16 addr (seek_at p off ua) (by decide) w
  rwa [cell_zero] at h

theorem getBytes_seek (p : Packet) (off : Nat) (ua : UnsafeAccess) (w : World) :
    (Ipv6Packet.getBytes Ipv6Packet.BYTES_IPV6 (p.seek off ua) w).1 =
      bytesLE Ipv6Packet.BYTES_IPV6
        (loadLE w.mem (cell p.packet_pointer off) Ipv6Packet.BYTES_IPV6) := by
  have h := Ipv6Packet.getBytes_fst Ipv6Packet.BYTES_IPV6 (seek_at p off ua) (by decide) w
  rwa [cell_zero, ← bytesLE_loadLE] at h

/-- **Result of a call**: a function of one field of the header. -/
theorem exec_result (c : Ipv6Call) (p : Packet) (ua : UnsafeAccess) (w : World) :
    (c.exec p ua w).1 = c.decode (ipv6Layout.get w.mem p.packet_pointer c.field) := by
  cases c with
  | setSrcAddr addr | setDstAddr addr =>
    exact congrArg Ipv6Result.ofLoop (Ipv6Packet.putBytes_complete 16 addr _ w)
  | getVersion =>
    exact congrArg (fun v : JLong => Ipv6Result.int ((v.sshiftRight 28).setWidth 32))
      (p.seek_getInt _ ua w)
  | getVtcFlow => exact congrArg Ipv6Result.long (p.seek_getInt _ ua w)
  | getLength => exact congrArg Ipv6Result.int (p.seek_getShort _ ua w)
  | getProto | getHopLimits => exact congrArg Ipv6Result.int (p.seek_getByte _ ua w)
  | getSrcAddr | getDstAddr => exact congrArg Ipv6Result.bytes (getBytes_seek p _ ua w)
  | whichIP =>
    -- only the first byte of the field is read
    have hbyte := byte_loadLE w.mem (cell p.packet_pointer 0) 0
    have hbyte' := byte_loadLE w.mem (cell p.packet_pointer 0) 3
    have hres := p.whichIP_fst ua w
    rw [hbyte, ← hbyte'] at hres
    exact congrArg Ipv6Result.int hres
  | _ => rfl

/-- **Memory after a call**: at most one field of the header is stored. -/
theorem exec_mem (c : Ipv6Call) (p : Packet) (ua : UnsafeAccess) (w : World) :
    (c.exec p ua w).2.2.mem = c.stored.elim w.mem fun s =>
      storeLE w.mem (cell p.packet_pointer (ipv6Layout.off c.field)) s.1 s.2 := by
  -- the simple setters make one store; the address loops amount to one
  cases c with
  | setVtcFlow v => exact p.seek_putInt_mem _ v ua w
  | setPayloadLength v => exact p.seek_putShort_mem _ v ua w
  | setProto v | setHopLimits v => exact p.seek_putByte_mem _ v ua w
  | setSrcAddr addr | setDstAddr addr => exact putBytes_seek_mem p _ addr ua w
  | getSrcAddr =>
    show (Ipv6Packet.getSrcAddr p ua w).2.2.mem = w.mem
    exact Ipv6Packet.getBytes_mem _ _ w
  | getDstAddr =>
    show (Ipv6Packet.getDstAddr p ua w).2.2.mem = w.mem
    exact Ipv6Packet.getBytes_mem _ _ w
  | _ => rfl

end Ipv6Call

def ipv6Accessors : Accessors Ipv6Call Ipv6Result Ipv6Field where
  exec := Ipv6Call.exec
  layout := ipv6Layout
  headerSize := ipv6HdrSize
  field := Ipv6Call.field
  stored := Ipv6Call.stored
  decode := Ipv6Call.decode
  tiles := ipv6Layout_tiles
  headerSize_le := by decide
  stored_le := by
    intro c k v h
    cases c with
    | setSrcAddr addr | setDstAddr addr =>
      cases h
      exact Nat.min_le_left 16 _
    | _ => cases h <;> exact Nat.le_refl _
  exec_mem := Ipv6Call.exec_mem
  exec_result := Ipv6Call.exec_result

/-- The setters with every value of the unsigned range of their field, and
    with every array of 16 bytes. -/
inductive Ipv6Assigns : Ipv6Field → Ipv6Call → Ipv6Call → Ipv6Result → Prop
  | vtcFlow (v : JLong) (h : v.toNat < 2 ^ 32) :
    Ipv6Assigns .vtcFlow (.setVtcFlow v) .getVtcFlow (.long v)
  | payloadLength (v : JInt) (h : v.toNat < 2 ^ 16) :
    Ipv6Assigns .payloadLength (.setPayloadLength v) .getLength (.int v)
  | proto (v : JInt) (h : v.toNat < 2 ^ 8) :
    Ipv6Assigns .proto (.setProto v) .getProto (.int v)
  | hopLimits (v : JInt) (h : v.toNat < 2 ^ 8) :
    Ipv6Assigns .hopLimits (.setHopLimits v) .getHopLimits (.int v)
  | srcAddr (addr : List JByte) (h : addr.length = 16) :
    Ipv6Assigns .srcAddr (.setSrcAddr addr) .getSrcAddr (.bytes addr)
  | dstAddr (addr : List JByte) (h : addr.length = 16) :
    Ipv6Assigns .dstAddr (.setDstAddr addr) .getDstAddr (.bytes addr)

/-- An address that was stored is read back. -/
theorem bytesLE_stored {addr : List JByte} (h : addr.length = 16) :
    bytesLE Ipv6Packet.BYTES_IPV6 (ofBytesLE addr % 256 ^ Ipv6Packet.BYTES_IPV6) = addr := by
  have hlen : Ipv6Packet.BYTES_IPV6 = addr.length := h.symm
  rw [hlen, Nat.mod_eq_of_lt (ofBytesLE_lt addr), bytesLE_ofBytesLE]

theorem ipv6_fieldLaws :
    FieldLaws Ipv6Call.exec ipv6Layout ipv6HdrSize Ipv6Call.field Ipv6Assigns := by
  apply ipv6Accessors.fieldLaws
  intro f set get r h
  cases h with
  | vtcFlow v h =>
    exact ⟨rfl, rfl, _, rfl, congrArg Ipv6Result.long (signToUnsignInt_stored h)⟩
  | payloadLength v h =>
    exact ⟨rfl, rfl, _, rfl, congrArg Ipv6Result.int (signToUnsignShort_stored h)⟩
  | proto v h | hopLimits v h =>
    exact ⟨rfl, rfl, _, rfl, congrArg Ipv6Result.int (signToUnsignByte_stored h)⟩
  | srcAddr addr h | dstAddr addr h =>
    -- an array of 16 bytes fills the field
    have hcount : min 16 addr.length = 16 := by rw [h, Nat.min_self]
    exact ⟨rfl, rfl, ofBytesLE addr, congrArg (fun k => some (k, ofBytesLE addr)) hcount,
      congrArg Ipv6Result.bytes (bytesLE_stored h)⟩

/-- **Main**: the fields of both headers can be set and read independently of
    each other, and make up the 20 and the 40 bytes of the headers. -/
theorem header_fieldLaws :
    FieldLaws Ipv4Call.exec ipv4Layout 20 Ipv4Call.field Ipv4Assigns ∧
    FieldLaws Ipv6Call.exec ipv6Layout 40 Ipv6Call.field Ipv6Assigns :=
  ⟨ipv4_fieldLaws, ipv6_fieldLaws⟩

end PacketPro
