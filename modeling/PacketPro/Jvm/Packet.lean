import PacketPro.Jvm.UnsafeAccess
import PacketPro.Native.DpdkAccess

/-! # `Packet.java` and `Ipv4Packet.java`: Header Access

    A packet object holds the mbuf pointer and the address of the IP header.
    Its accessors all have one shape: point a cursor at a fixed offset in the
    header, then read or write one field through it. The cursor belongs to an
    `UnsafeAccess` that many packets may share, so it is passed in and out.

    Every `Ipv4Packet` method is also a constructor of `Ipv4Call`, which makes
    "any sequence of accessor calls" a list or a tree of calls.
-/

open ByteMem

namespace PacketPro

/-! ## Section 1: Definitions -/

structure Packet where
  mbuf_pointer : JLong
  packet_pointer : JLong
  deriving DecidableEq, Repr

namespace Packet

/-- The constructor also points the cursor at the packet. -/
def new (mbuf packet : JLong) (ua : UnsafeAccess) : Packet × UnsafeAccess :=
  (⟨mbuf, packet⟩, ua.setCurrentPointer packet)

/-- Point the cursor at a field of the header. -/
def seek (p : Packet) (off : Nat) (ua : UnsafeAccess) : UnsafeAccess :=
  ua.setCurrentPointer (p.packet_pointer + BitVec.ofNat 64 off)

def whichIP (p : Packet) (ua : UnsafeAccess) (w : World) : JInt × UnsafeAccess × World :=
  let (b, ua, w) := (ua.setCurrentPointer p.packet_pointer).getByte w
  let version := b.sshiftRight 4
  (if version = 4 ∨ version = 6 then version else 0, ua, w)

end Packet

/-! ### `Ipv4Packet` -/

def VERSION_IHL_OFFSET : Nat := 0
def TYPE_OF_SERVICE_OFFSET : Nat := 1
def TOTAL_LENGTH_OFFSET : Nat := 2
def PACKET_ID_OFFSET : Nat := 4
def FRAGMENT_OFFSET_OFFSET : Nat := 6
def TIME_TO_LIVE_OFFSET : Nat := 8
def NEXT_PROTO_ID_OFFSET : Nat := 9
def HDR_CHECKSUM_OFFSET : Nat := 10
def SRC_ADDR_OFFSET : Nat := 12
def DST_ADDR_OFFSET : Nat := 16

namespace Ipv4Packet

variable (p : Packet)

def setVersionIhl (v : JInt) (ua : UnsafeAccess) := (p.seek VERSION_IHL_OFFSET ua).putByte v
def setTypeOfService (v : JInt) (ua : UnsafeAccess) := (p.seek TYPE_OF_SERVICE_OFFSET ua).putByte v
def setTotalLength (v : JInt) (ua : UnsafeAccess) := (p.seek TOTAL_LENGTH_OFFSET ua).putShort v
def setPacketID (v : JInt) (ua : UnsafeAccess) := (p.seek PACKET_ID_OFFSET ua).putShort v
def setFragmentOffset (v : JInt) (ua : UnsafeAccess) := (p.seek FRAGMENT_OFFSET_OFFSET ua).putShort v
def setTimeToLive (v : JInt) (ua : UnsafeAccess) := (p.seek TIME_TO_LIVE_OFFSET ua).putByte v
def setNextProtoID (v : JInt) (ua : UnsafeAccess) := (p.seek NEXT_PROTO_ID_OFFSET ua).putByte v
def setHdrChecksum (v : JInt) (ua : UnsafeAccess) := (p.seek HDR_CHECKSUM_OFFSET ua).putShort v
def setSrcAddr (v : JLong) (ua : UnsafeAccess) := (p.seek SRC_ADDR_OFFSET ua).putInt v
def setDstAddr (v : JLong) (ua : UnsafeAccess) := (p.seek DST_ADDR_OFFSET ua).putInt v

def getVersionIhl (ua : UnsafeAccess) := (p.seek VERSION_IHL_OFFSET ua).getByte
def getTypeOfService (ua : UnsafeAccess) := (p.seek TYPE_OF_SERVICE_OFFSET ua).getByte
def getLength (ua : UnsafeAccess) := (p.seek TOTAL_LENGTH_OFFSET ua).getShort
def getPacketId (ua : UnsafeAccess) := (p.seek PACKET_ID_OFFSET ua).getShort
def getFragmentOffset (ua : UnsafeAccess) := (p.seek FRAGMENT_OFFSET_OFFSET ua).getShort
def getTimeToLive (ua : UnsafeAccess) := (p.seek TIME_TO_LIVE_OFFSET ua).getByte
def getNextProtoId (ua : UnsafeAccess) := (p.seek NEXT_PROTO_ID_OFFSET ua).getByte
def getHdrChecksum (ua : UnsafeAccess) := (p.seek HDR_CHECKSUM_OFFSET ua).getShort
def getSrcAddr (ua : UnsafeAccess) := (p.seek SRC_ADDR_OFFSET ua).getInt
def getDst_Addr (ua : UnsafeAccess) := (p.seek DST_ADDR_OFFSET ua).getInt

def getVersion (ua : UnsafeAccess) (w : World) : JInt × UnsafeAccess × World :=
  let (v, ua, w) := getVersionIhl p ua w
  (v.sshiftRight 4, ua, w)

end Ipv4Packet

/-- The methods that read or write the header of an `Ipv4Packet`. -/
inductive Ipv4Call where
  | setVersionIhl (v : JInt)
  | setTypeOfService (v : JInt)
  | setTotalLength (v : JInt)
  | setPacketID (v : JInt)
  | setFragmentOffset (v : JInt)
  | setTimeToLive (v : JInt)
  | setNextProtoID (v : JInt)
  | setHdrChecksum (v : JInt)
  | setSrcAddr (v : JLong)
  | setDstAddr (v : JLong)
  | getVersionIhl
  | getVersion
  | getTypeOfService
  | getLength
  | getPacketId
  | getFragmentOffset
  | getTimeToLive
  | getNextProtoId
  | getHdrChecksum
  | getSrcAddr
  | getDst_Addr
  | whichIP
  deriving DecidableEq, Repr

/-- What a call returns to the caller. -/
inductive CallResult where
  | void
  | int (v : JInt)
  | long (v : JLong)
  deriving DecidableEq, Repr

/-- Run one call on a packet through the given cursor. -/
def Ipv4Call.exec (c : Ipv4Call) (p : Packet) (ua : UnsafeAccess) (w : World) :
    CallResult × UnsafeAccess × World :=
  match c with
  | .setVersionIhl v => (.void, Ipv4Packet.setVersionIhl p v ua w)
  | .setTypeOfService v => (.void, Ipv4Packet.setTypeOfService p v ua w)
  | .setTotalLength v => (.void, Ipv4Packet.setTotalLength p v ua w)
  | .setPacketID v => (.void, Ipv4Packet.setPacketID p v ua w)
  | .setFragmentOffset v => (.void, Ipv4Packet.setFragmentOffset p v ua w)
  | .setTimeToLive v => (.void, Ipv4Packet.setTimeToLive p v ua w)
  | .setNextProtoID v => (.void, Ipv4Packet.setNextProtoID p v ua w)
  | .setHdrChecksum v => (.void, Ipv4Packet.setHdrChecksum p v ua w)
  | .setSrcAddr v => (.void, Ipv4Packet.setSrcAddr p v ua w)
  | .setDstAddr v => (.void, Ipv4Packet.setDstAddr p v ua w)
  | .getVersionIhl => (Ipv4Packet.getVersionIhl p ua w).map .int id
  | .getVersion => (Ipv4Packet.getVersion p ua w).map .int id
  | .getTypeOfService => (Ipv4Packet.getTypeOfService p ua w).map .int id
  | .getLength => (Ipv4Packet.getLength p ua w).map .int id
  | .getPacketId => (Ipv4Packet.getPacketId p ua w).map .int id
  | .getFragmentOffset => (Ipv4Packet.getFragmentOffset p ua w).map .int id
  | .getTimeToLive => (Ipv4Packet.getTimeToLive p ua w).map .int id
  | .getNextProtoId => (Ipv4Packet.getNextProtoId p ua w).map .int id
  | .getHdrChecksum => (Ipv4Packet.getHdrChecksum p ua w).map .int id
  | .getSrcAddr => (Ipv4Packet.getSrcAddr p ua w).map .long id
  | .getDst_Addr => (Ipv4Packet.getDst_Addr p ua w).map .long id
  | .whichIP => (p.whichIP ua w).map .int id

/-! ## Section 2: The bytes a call depends on -/

/-- `sizeof(struct ipv4_hdr)`. -/
def ipv4HdrSize : Nat := 20

/-- The header of a packet as a region of memory. -/
def Packet.header (p : Packet) : Region 64 := ⟨p.packet_pointer, ipv4HdrSize⟩

@[simp] theorem Packet.seek_address (p : Packet) (off : Nat) (ua : UnsafeAccess) :
    (p.seek off ua).address = cell p.packet_pointer off :=
  UnsafeAccess.setCurrentPointer_address ua _

/-! One lemma for each width of a field: what it reads, what it stores. -/

theorem Packet.seek_getByte (p : Packet) (off : Nat) (ua : UnsafeAccess) (w : World) :
    ((p.seek off ua).getByte w).1 =
      signToUnsignByte (BitVec.ofNat 8 (loadLE w.mem (cell p.packet_pointer off) 1)) := by
  rw [← p.seek_address off ua]
  rfl

theorem Packet.seek_getShort (p : Packet) (off : Nat) (ua : UnsafeAccess) (w : World) :
    ((p.seek off ua).getShort w).1 =
      signToUnsignShort (BitVec.ofNat 16 (loadLE w.mem (cell p.packet_pointer off) 2)) := by
  rw [← p.seek_address off ua]
  rfl

theorem Packet.seek_getInt (p : Packet) (off : Nat) (ua : UnsafeAccess) (w : World) :
    ((p.seek off ua).getInt w).1 =
      signToUnsignInt (BitVec.ofNat 32 (loadLE w.mem (cell p.packet_pointer off) 4)) := by
  rw [← p.seek_address off ua]
  rfl

theorem Packet.seek_putByte_mem (p : Packet) (off : Nat) (v : JInt) (ua : UnsafeAccess)
    (w : World) :
    ((p.seek off ua).putByte v w).2.mem =
      storeLE w.mem (cell p.packet_pointer off) 1 (v.setWidth 8).toNat := by
  simp only [UnsafeAccess.putByte, World.store_mem, UnsafeAccess.checkBounds_mem, seek_address]

theorem Packet.seek_putShort_mem (p : Packet) (off : Nat) (v : JInt) (ua : UnsafeAccess)
    (w : World) : ((p.seek off ua).putShort v w).2.mem =
      storeLE w.mem (cell p.packet_pointer off) 2 (v.setWidth 16).toNat := by
  simp only [UnsafeAccess.putShort, World.store_mem, UnsafeAccess.checkBounds_mem, seek_address]

theorem Packet.seek_putInt_mem (p : Packet) (off : Nat) (v : JLong) (ua : UnsafeAccess)
    (w : World) : ((p.seek off ua).putInt v w).2.mem =
      storeLE w.mem (cell p.packet_pointer off) 4 (v.setWidth 32).toNat := by
  simp only [UnsafeAccess.putInt, World.store_mem, UnsafeAccess.checkBounds_mem, seek_address]

/-- `whichIP` reads the first byte of the header. -/
theorem Packet.whichIP_fst (p : Packet) (ua : UnsafeAccess) (w : World) :
    (p.whichIP ua w).1 =
      let version := (signToUnsignByte (BitVec.ofNat 8
        (loadLE w.mem (cell p.packet_pointer 0) 1))).sshiftRight 4
      if version = 4 ∨ version = 6 then version else 0 := by
  have haddr : (ua.setCurrentPointer p.packet_pointer).address = cell p.packet_pointer 0 := by
    rw [UnsafeAccess.setCurrentPointer_address, cell_zero]
  rw [← haddr]
  rfl

theorem Packet.field_subset (p : Packet) (off n : Nat) (h : off + n ≤ ipv4HdrSize) :
    (⟨cell p.packet_pointer off, n⟩ : Region 64) ⊆ p.header :=
  cell_subset p.packet_pointer ipv4HdrSize off n h (by decide)

/-- Every call starts by pointing the cursor at its field, so nothing it does
    depends on where earlier calls left the cursor. -/
theorem Ipv4Call.exec_cursor_irrelevant (c : Ipv4Call) (p : Packet) (ua ua' : UnsafeAccess)
    (w : World) : c.exec p ua w = c.exec p ua' w := by
  cases c <;> rfl

/-- The one field a call reads or writes: its offset, its size in bytes and,
    for a write, the value stored. -/
inductive FieldAccess where
  | load (off n : Nat)
  | store (off n v : Nat)

def Ipv4Call.access : Ipv4Call → FieldAccess
  | .setVersionIhl v => .store VERSION_IHL_OFFSET 1 (v.setWidth 8).toNat
  | .setTypeOfService v => .store TYPE_OF_SERVICE_OFFSET 1 (v.setWidth 8).toNat
  | .setTotalLength v => .store TOTAL_LENGTH_OFFSET 2 (v.setWidth 16).toNat
  | .setPacketID v => .store PACKET_ID_OFFSET 2 (v.setWidth 16).toNat
  | .setFragmentOffset v => .store FRAGMENT_OFFSET_OFFSET 2 (v.setWidth 16).toNat
  | .setTimeToLive v => .store TIME_TO_LIVE_OFFSET 1 (v.setWidth 8).toNat
  | .setNextProtoID v => .store NEXT_PROTO_ID_OFFSET 1 (v.setWidth 8).toNat
  | .setHdrChecksum v => .store HDR_CHECKSUM_OFFSET 2 (v.setWidth 16).toNat
  | .setSrcAddr v => .store SRC_ADDR_OFFSET 4 (v.setWidth 32).toNat
  | .setDstAddr v => .store DST_ADDR_OFFSET 4 (v.setWidth 32).toNat
  | .getVersionIhl | .getVersion => .load VERSION_IHL_OFFSET 1
  | .getTypeOfService => .load TYPE_OF_SERVICE_OFFSET 1
  | .getLength => .load TOTAL_LENGTH_OFFSET 2
  | .getPacketId => .load PACKET_ID_OFFSET 2
  | .getFragmentOffset => .load FRAGMENT_OFFSET_OFFSET 2
  | .getTimeToLive => .load TIME_TO_LIVE_OFFSET 1
  | .getNextProtoId => .load NEXT_PROTO_ID_OFFSET 1
  | .getHdrChecksum => .load HDR_CHECKSUM_OFFSET 2
  | .getSrcAddr => .load SRC_ADDR_OFFSET 4
  | .getDst_Addr => .load DST_ADDR_OFFSET 4
  | .whichIP => .load 0 1

/-- What the call makes of the number it loads. -/
def Ipv4Call.decode (c : Ipv4Call) (x : Nat) : CallResult :=
  let byte := signToUnsignByte (BitVec.ofNat 8 x)
  let version := byte.sshiftRight 4
  match c with
  | .getVersionIhl | .getTypeOfService | .getTimeToLive | .getNextProtoId => .int byte
  | .getLength | .getPacketId | .getFragmentOffset | .getHdrChecksum =>
    .int (signToUnsignShort (BitVec.ofNat 16 x))
  | .getSrcAddr | .getDst_Addr => .long (signToUnsignInt (BitVec.ofNat 32 x))
  | .getVersion => .int version
  | .whichIP => .int (if version = 4 ∨ version = 6 then version else 0)
  | _ => .void

/-- The number a field access finds in memory. -/
def FieldAccess.loaded (f : FieldAccess) (p : Packet) (m : Memory 64) : Nat :=
  match f with
  | .load off n => loadLE m (cell p.packet_pointer off) n
  | .store _ _ _ => 0

/-- The memory after a field access. -/
def FieldAccess.memAfter (f : FieldAccess) (p : Packet) (m : Memory 64) : Memory 64 :=
  match f with
  | .load _ _ => m
  | .store off n v => storeLE m (cell p.packet_pointer off) n v

/-- The field lies inside the 20-byte header. -/
def FieldAccess.InHeader : FieldAccess → Prop
  | .load off n => off + n ≤ ipv4HdrSize
  | .store off n _ => off + n ≤ ipv4HdrSize

theorem Ipv4Call.access_inHeader (c : Ipv4Call) : c.access.InHeader := by
  cases c <;> simp [Ipv4Call.access, FieldAccess.InHeader, ipv4HdrSize, VERSION_IHL_OFFSET,
    TYPE_OF_SERVICE_OFFSET, TOTAL_LENGTH_OFFSET, PACKET_ID_OFFSET, FRAGMENT_OFFSET_OFFSET,
    TIME_TO_LIVE_OFFSET, NEXT_PROTO_ID_OFFSET, HDR_CHECKSUM_OFFSET, SRC_ADDR_OFFSET,
    DST_ADDR_OFFSET]

/-- **Result of a call**: a function of one field of the header. -/
theorem Ipv4Call.exec_result (c : Ipv4Call) (p : Packet) (ua : UnsafeAccess) (w : World) :
    (c.exec p ua w).1 = c.decode (c.access.loaded p w.mem) := by
  cases c with
  | getVersionIhl | getTypeOfService | getTimeToLive | getNextProtoId =>
    exact congrArg CallResult.int (p.seek_getByte _ ua w)
  | getVersion =>
    exact congrArg (fun v : JInt => CallResult.int (v.sshiftRight 4)) (p.seek_getByte _ ua w)
  | getLength | getPacketId | getFragmentOffset | getHdrChecksum =>
    exact congrArg CallResult.int (p.seek_getShort _ ua w)
  | getSrcAddr | getDst_Addr => exact congrArg CallResult.long (p.seek_getInt _ ua w)
  | whichIP => exact congrArg CallResult.int (p.whichIP_fst ua w)
  | _ => rfl

/-- **Memory after a call**: at most one field of the header is stored. -/
theorem Ipv4Call.exec_mem (c : Ipv4Call) (p : Packet) (ua : UnsafeAccess) (w : World) :
    (c.exec p ua w).2.2.mem = c.access.memAfter p w.mem := by
  cases c with
  | setVersionIhl v | setTypeOfService v | setTimeToLive v | setNextProtoID v =>
    exact p.seek_putByte_mem _ v ua w
  | setTotalLength v | setPacketID v | setFragmentOffset v | setHdrChecksum v =>
    exact p.seek_putShort_mem _ v ua w
  | setSrcAddr v | setDstAddr v => exact p.seek_putInt_mem _ v ua w
  | _ => rfl

/-- Two memories that agree on the header give the same result. -/
theorem Ipv4Call.exec_result_congr (c : Ipv4Call) (p : Packet) (ua ua' : UnsafeAccess)
    {w w' : World} (h : ∀ b, b ∈ p.header → w.mem b = w'.mem b) :
    (c.exec p ua w).1 = (c.exec p ua' w').1 := by
  have hin := c.access_inHeader
  rw [c.exec_result, c.exec_result]
  -- a setter has no result; a getter reads inside the header
  cases hacc : c.access with
  | store off n v => rfl
  | load off n =>
    rw [hacc] at hin
    have hload : loadLE w.mem (cell p.packet_pointer off) n =
        loadLE w'.mem (cell p.packet_pointer off) n := by
      apply loadLE_congr
      · have : n ≤ ipv4HdrSize := by simp only [FieldAccess.InHeader] at hin; omega
        exact Nat.le_trans this (by decide)
      · intro b hb
        exact h b (p.field_subset off n hin b hb)
    simp only [FieldAccess.loaded, hload]

/-- A call makes no two memories differ where they agreed before. -/
theorem Ipv4Call.exec_mem_congr (c : Ipv4Call) (p : Packet) (ua ua' : UnsafeAccess)
    {w w' : World} {b : Addr} (h : w.mem b = w'.mem b) :
    (c.exec p ua w).2.2.mem b = (c.exec p ua' w').2.2.mem b := by
  rw [c.exec_mem, c.exec_mem]
  cases c.access with
  | load off n => exact h
  | store off n v =>
    simp only [FieldAccess.memAfter, storeLE]
    split
    · rfl
    · exact h

/-- A call leaves every byte outside the header alone. -/
theorem Ipv4Call.exec_mem_outside (c : Ipv4Call) (p : Packet) (ua : UnsafeAccess) (w : World)
    {b : Addr} (hb : b ∉ p.header) : (c.exec p ua w).2.2.mem b = w.mem b := by
  have hin := c.access_inHeader
  rw [c.exec_mem]
  cases hacc : c.access with
  | load off n => rfl
  | store off n v =>
    rw [hacc] at hin
    exact storeLE_of_not_mem _ _ _ _ fun hmem => hb (p.field_subset off n hin b hmem)

/-! ## Section 3: The packets of a received burst -/

/-- What a received mbuf becomes on the Java side. -/
def RxMbuf.packet (r : RxMbuf) : Packet := ⟨r.mbuf, r.ip⟩

/-- The `n` pairs of an mbuf and a header pointer from `a` on. -/
def packetsAt (m : Memory 64) (a : Addr) : Nat → List Packet
  | 0 => []
  | n + 1 => ⟨word64 m a, word64 m (cell a 8)⟩ :: packetsAt m (cell a 16) n

/-- The count that a poller reads back is the number of mbufs delivered. -/
theorem getShort_receive_burst (ua : UnsafeAccess) (mem_pointer : JLong)
    (delivered : List RxMbuf) (w : World) (hcount : delivered.length < 2 ^ 16) :
    ((ua.setCurrentPointer mem_pointer).getShort
      (nat_receive_burst mem_pointer delivered w)).1 = BitVec.ofNat 32 delivered.length := by
  apply BitVec.eq_of_toNat_eq
  rw [UnsafeAccess.getShort_toNat, UnsafeAccess.setCurrentPointer_address,
    nat_receive_burst_count _ _ _ hcount, BitVec.toNat_ofNat]
  omega

/-- An encoded burst decodes to the packets it was made of. -/
theorem packetsAt_of_words (m : Memory 64) (a : Addr) (rs : List RxMbuf)
    (h : wordsAt m a (2 * rs.length) = burstWords rs) :
    packetsAt m a rs.length = rs.map RxMbuf.packet := by
  induction rs generalizing a with
  | nil => rfl
  | cons r rs ih =>
    have hcount : 2 * (r :: rs).length = 2 * rs.length + 1 + 1 := by
      simp only [List.length_cons]; omega
    have hcons : burstWords (r :: rs) = r.mbuf :: r.ip :: burstWords rs := rfl
    rw [hcount, wordsAt_succ_eq_cons, wordsAt_succ_eq_cons, hcons] at h
    injection h with hmbuf h
    injection h with hip htail
    rw [add_ofNat_add_ofNat] at htail
    have hpacket : r.packet = ⟨word64 m a, word64 m (cell a 8)⟩ := by
      rw [hmbuf]
      exact congrArg (Packet.mk r.mbuf) hip.symm
    rw [List.length_cons, List.map_cons, packetsAt, ih (cell a 16) htail, hpacket]

end PacketPro
