import PacketPro.Jvm.Packet
import PacketPro.Framework.Layout

/-! # `Ipv6Packet.java`: Header Access

    The accessors of the IPv6 header have the shape of those of the IPv4
    header, except for the two addresses: these are Java byte arrays, copied
    one byte after the other through the running offset of the cursor. A
    setter reads the first 16 bytes of the array it is given. If there are
    fewer, it stores what there is before the exception ends it.
-/

open ByteMem

namespace PacketPro

/-! ## Section 1: Definitions -/

namespace Ipv6Packet

def VTC_FLOW_OFFSET : Nat := 0
def PAYLOAD_LENGTH_OFFSET : Nat := 4
def PROTO_OFFSET : Nat := 6
def HOP_LIMITS_OFFSET : Nat := 7
def SRC_ADDR_OFFSET : Nat := 8
def DST_ADDR_OFFSET : Nat := 24

def BYTES_IPV6 : Nat := 16

variable (p : Packet)

/-- The loop of the address setters, with `n` bytes to go. The flag is `false`
    when the array ended before the loop did. -/
def putBytes : Nat → List JByte → UnsafeAccess → World → Bool × UnsafeAccess × World
  | 0, _, ua, w => (true, ua, w)
  | _ + 1, [], ua, w => (false, ua, w)
  | n + 1, b :: addr, ua, w =>
    -- a byte above 127 is a negative `int`: it is reported and stored all the same
    let (ua, w) := ua.putByte (b.signExtend 32) w
    putBytes n addr ua w

/-- The loop of the address getters, with `n` bytes to go. -/
def getBytes : Nat → UnsafeAccess → World → List JByte × UnsafeAccess × World
  | 0, ua, w => ([], ua, w)
  | n + 1, ua, w =>
    let (v, ua, w) := ua.getByte w
    let (res, ua, w) := getBytes n ua w
    (v.setWidth 8 :: res, ua, w)

def setVtcFlow (v : JLong) (ua : UnsafeAccess) := (p.seek VTC_FLOW_OFFSET ua).putInt v
def setPayloadLength (v : JInt) (ua : UnsafeAccess) := (p.seek PAYLOAD_LENGTH_OFFSET ua).putShort v
def setProto (v : JInt) (ua : UnsafeAccess) := (p.seek PROTO_OFFSET ua).putByte v
def setHopLimits (v : JInt) (ua : UnsafeAccess) := (p.seek HOP_LIMITS_OFFSET ua).putByte v
def setSrcAddr (addr : List JByte) (ua : UnsafeAccess) :=
  putBytes 16 addr (p.seek SRC_ADDR_OFFSET ua)
def setDstAddr (addr : List JByte) (ua : UnsafeAccess) :=
  putBytes 16 addr (p.seek DST_ADDR_OFFSET ua)

def getVtcFlow (ua : UnsafeAccess) := (p.seek VTC_FLOW_OFFSET ua).getInt
def getLength (ua : UnsafeAccess) := (p.seek PAYLOAD_LENGTH_OFFSET ua).getShort
def getProto (ua : UnsafeAccess) := (p.seek PROTO_OFFSET ua).getByte
def getHopLimits (ua : UnsafeAccess) := (p.seek HOP_LIMITS_OFFSET ua).getByte
def getSrcAddr (ua : UnsafeAccess) := getBytes BYTES_IPV6 (p.seek SRC_ADDR_OFFSET ua)
def getDstAddr (ua : UnsafeAccess) := getBytes BYTES_IPV6 (p.seek DST_ADDR_OFFSET ua)

/-- The cast to `int` comes after the shift of the `long`. -/
def getVersion (ua : UnsafeAccess) (w : World) : JInt × UnsafeAccess × World :=
  let (v, ua, w) := getVtcFlow p ua w
  ((v.sshiftRight 28).setWidth 32, ua, w)

end Ipv6Packet

/-- The methods that read or write the header of an `Ipv6Packet`. -/
inductive Ipv6Call where
  | setVtcFlow (v : JLong)
  | setPayloadLength (v : JInt)
  | setProto (v : JInt)
  | setHopLimits (v : JInt)
  | setSrcAddr (addr : List JByte)
  | setDstAddr (addr : List JByte)
  | getVersion
  | getVtcFlow
  | getLength
  | getProto
  | getHopLimits
  | getSrcAddr
  | getDstAddr
  | whichIP
  deriving DecidableEq, Repr

inductive Ipv6Result where
  | void
  | int (v : JInt)
  | long (v : JLong)
  | bytes (res : List JByte)
  /-- `ArrayIndexOutOfBoundsException`. -/
  | outOfBounds
  deriving DecidableEq, Repr

/-- What the caller of an address setter sees. -/
def Ipv6Result.ofLoop (complete : Bool) : Ipv6Result := if complete then .void else .outOfBounds

/-- Run one call on a packet through the given cursor. -/
def Ipv6Call.exec (c : Ipv6Call) (p : Packet) (ua : UnsafeAccess) (w : World) :
    Ipv6Result × UnsafeAccess × World :=
  match c with
  | .setVtcFlow v => (.void, Ipv6Packet.setVtcFlow p v ua w)
  | .setPayloadLength v => (.void, Ipv6Packet.setPayloadLength p v ua w)
  | .setProto v => (.void, Ipv6Packet.setProto p v ua w)
  | .setHopLimits v => (.void, Ipv6Packet.setHopLimits p v ua w)
  | .setSrcAddr addr => (Ipv6Packet.setSrcAddr p addr ua w).map .ofLoop id
  | .setDstAddr addr => (Ipv6Packet.setDstAddr p addr ua w).map .ofLoop id
  | .getVersion => (Ipv6Packet.getVersion p ua w).map .int id
  | .getVtcFlow => (Ipv6Packet.getVtcFlow p ua w).map .long id
  | .getLength => (Ipv6Packet.getLength p ua w).map .int id
  | .getProto => (Ipv6Packet.getProto p ua w).map .int id
  | .getHopLimits => (Ipv6Packet.getHopLimits p ua w).map .int id
  | .getSrcAddr => (Ipv6Packet.getSrcAddr p ua w).map .bytes id
  | .getDstAddr => (Ipv6Packet.getDstAddr p ua w).map .bytes id
  | .whichIP => (p.whichIP ua w).map .int id

/-! ## Section 2: The address loops -/

namespace Ipv6Packet

/-- The byte of an array element that `putByte` stores. -/
theorem signExtend_setWidth (b : JByte) : (b.signExtend 32).setWidth 8 = b := by
  ext i hi
  rw [BitVec.getElem_setWidth, BitVec.getLsbD_signExtend]
  simp [hi, show i < 32 by omega]

/-- **Step lemma** of the setters: one byte, and the cursor moves on. -/
theorem putByte_mem {ua : UnsafeAccess} {base : Addr} {k : Nat} (hua : ua.At base k)
    (hk : k < 2 ^ 31) (b : JByte) (w : World) :
    (ua.putByte (b.signExtend 32) w).2.mem = storeLE w.mem (cell base k) 1 b.toNat := by
  simp only [UnsafeAccess.putByte, World.store_mem, UnsafeAccess.checkBounds_mem,
    signExtend_setWidth, hua.address hk]

/-- The setters' loop stores the bytes it finds, as one little-endian number. -/
theorem putBytes_mem (n : Nat) (addr : List JByte) {ua : UnsafeAccess} {base : Addr} {k : Nat}
    (hua : ua.At base k) (hk : k + n < 2 ^ 31) (w : World) :
    (putBytes n addr ua w).2.2.mem =
      storeLE w.mem (cell base k) (min n addr.length) (ofBytesLE addr) := by
  induction n generalizing addr ua k w with
  | zero => rw [Nat.zero_min, storeLE_zero]; rfl
  | succ n ih =>
    cases addr with
    | nil => rw [List.length_nil, Nat.min_zero, storeLE_zero]; rfl
    | cons b addr =>
      have hnext : cell base (k + 1) = cell base k + 1 := (add_ofNat_add_ofNat base k 1).symm
      -- the first byte is the lowest digit, the loop goes on with the others
      have hlow : storeLE w.mem (cell base k) 1 b.toNat =
          storeLE w.mem (cell base k) 1 (ofBytesLE (b :: addr)) := by
        apply storeLE_congr_value
        rw [ofBytesLE]
        omega
      have htail : ofBytesLE (b :: addr) / 256 = ofBytesLE addr := add_mul_div b _
      show (putBytes n addr (ua.advance 1) (ua.putByte (b.signExtend 32) w).2).2.2.mem = _
      have hsize : min n addr.length + 1 ≤ 2 ^ 64 := by omega
      rw [ih addr (hua.advance 1) (by omega), putByte_mem hua (by omega), hnext, hlow, ← htail,
        List.length_cons, Nat.succ_min_succ, storeLE_succ_low_first _ _ _ hsize]

theorem putBytes_complete (n : Nat) (addr : List JByte) (ua : UnsafeAccess) (w : World) :
    (putBytes n addr ua w).1 = decide (n ≤ addr.length) := by
  induction n generalizing addr ua w with
  | zero => simp [putBytes]
  | succ n ih =>
    cases addr with
    | nil => simp [putBytes]
    | cons b addr =>
      show (putBytes n addr _ _).1 = _
      rw [ih, List.length_cons]
      simp only [Nat.add_le_add_iff_right]

/-- The getters' loop returns the bytes from the cursor on. -/
theorem getBytes_fst (n : Nat) {ua : UnsafeAccess} {base : Addr} {k : Nat}
    (hua : ua.At base k) (hk : k + n < 2 ^ 31) (w : World) :
    (getBytes n ua w).1 = bytesAt w.mem (cell base k) n := by
  induction n generalizing ua k w with
  | zero => rfl
  | succ n ih =>
    have hnext : cell base (k + 1) = cell base k + 1 := (add_ofNat_add_ofNat base k 1).symm
    -- reading as unsigned and casting back gives the byte itself
    have hbyte : (ua.getByte w).1.setWidth 8 = w.mem (cell base k) := by
      show (signToUnsignByte (BitVec.ofNat 8 (loadLE w.mem ua.address 1))).setWidth 8 = _
      rw [signToUnsignByte_eq, hua.address (by omega), byte_loadLE]
      exact BitVec.setWidth_setWidth_of_le _ (by decide)
    have htail := ih (hua.advance 1) (by omega) (ua.getByte w).2.2
    have hmem : (ua.getByte w).2.2.mem = w.mem := rfl
    show (ua.getByte w).1.setWidth 8 :: (getBytes n (ua.advance 1) (ua.getByte w).2.2).1 = _
    rw [hbyte, htail, hmem, hnext, bytesAt]

theorem getBytes_mem (n : Nat) (ua : UnsafeAccess) (w : World) :
    (getBytes n ua w).2.2.mem = w.mem := by
  induction n generalizing ua w with
  | zero => rfl
  | succ n ih => exact ih (ua.advance 1) (ua.getByte w).2.2

end Ipv6Packet

end PacketPro
