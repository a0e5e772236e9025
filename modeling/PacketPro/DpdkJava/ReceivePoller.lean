import PacketPro.Jvm.Packet

/-! # `DpdkJava/ReceivePoller.java`: Polling Into an Object List

    `getBurst` lets the native side encode a burst into the poller's buffer,
    then decodes it into a list of packet objects. The list object is created
    once and reused: it is cleared and refilled by a poll that received
    something, and handed out as it stands by a poll that did not.
-/

open ByteMem

namespace PacketPro.DpdkJava

/-! ## Section 1: Definitions -/

def DEFAULT_GET_SIZE : JInt := 32

structure ReceivePoller where
  ua : UnsafeAccess
  packet_all : JLong
  packet_all_size : JLong
  packet_interval : JLong
  packet_interval_size : JLong
  get_size : JInt
  /-- The `unsafe` field: the cursor that the packets share. -/
  unsafe_access : UnsafeAccess
  packets : List Packet
  mem_pointer : JLong
  memory_size : JInt

namespace ReceivePoller

/-- `Long.SIZE / Byte.SIZE` is 8 bytes, while `Short.SIZE` is 16 bits. -/
def memorySize (get_size : JInt) : JInt := 64 / 8 * get_size * 2 + 16

/-- The constructor, given the address that `allocateMemory` returns. -/
def new (mem_pointer : JLong) : ReceivePoller where
  ua := UnsafeAccess.new
  packet_all := 0
  packet_all_size := 0
  packet_interval := 0
  packet_interval_size := 0
  get_size := DEFAULT_GET_SIZE
  unsafe_access := UnsafeAccess.new
  packets := []
  mem_pointer := mem_pointer
  memory_size := memorySize DEFAULT_GET_SIZE

def getGetSize (rp : ReceivePoller) : JInt := rp.get_size

def setGetSize (rp : ReceivePoller) (get_size : JInt) : ReceivePoller :=
  { rp with get_size := get_size }

def resetInterval (rp : ReceivePoller) : ReceivePoller :=
  { rp with packet_interval := 0, packet_interval_size := 0 }

/-- One pass of the loop of `getBurst`. The packet is built with the shared
    cursor, and its length is read once for each of the two statistics. -/
def addPacket (temp : JLong) (i : Nat) (rp : ReceivePoller) (w : World) :
    ReceivePoller × World :=
  let new_pointer := temp + (2 * BitVec.ofNat 32 i : JInt).signExtend 64 * UnsafeAccess.longSize
  let ua := rp.ua.setCurrentPointer new_pointer
  let (mbuf, ua, w) := ua.getLong w
  let (packet, ua, w) := ua.getLong w
  let (p, unsafe_access) := Packet.new mbuf packet rp.unsafe_access
  let (length, unsafe_access, w) := Ipv4Packet.getLength p unsafe_access w
  let packet_all_size := rp.packet_all_size + length.signExtend 64
  let (length, unsafe_access, w) := Ipv4Packet.getLength p unsafe_access w
  let packet_interval_size := rp.packet_interval_size + length.signExtend 64
  ({ rp with ua, unsafe_access, packet_all_size, packet_interval_size
             packets := rp.packets ++ [p] }, w)

/-- The passes from `i` on, `n` of them. -/
def burstLoop (temp : JLong) : Nat → Nat → ReceivePoller → World → ReceivePoller × World
  | 0, _, rp, w => (rp, w)
  | n + 1, i, rp, w =>
    let (rp, w) := addPacket temp i rp w
    burstLoop temp n (i + 1) rp w

/-- One poll. The caller gets a reference to the `packets` list. -/
def getBurst (rp : ReceivePoller) (delivered : List RxMbuf) (w : World) :
    List Packet × ReceivePoller × World :=
  let temp := rp.mem_pointer
  let w := nat_receive_burst temp delivered w
  let ua := rp.ua.setCurrentPointer temp
  let (packet_count, ua, w) := ua.getShort w
  let rp := { rp with
    ua
    packet_all := rp.packet_all + packet_count.signExtend 64
    packet_interval := rp.packet_interval + packet_count.signExtend 64 }
  -- without packets the list of the last poll is returned once more
  if packet_count.toInt > 0 then
    let rp := { rp with packets := [] }
    let temp := temp + ua.offset.signExtend 64
    let (rp, w) := burstLoop temp packet_count.toNat 0 rp w
    (rp.packets, rp, w)
  else
    (rp.packets, rp, w)

/-! ## Section 2: Decoding -/

/-- Where pass `i` finds its pair. -/
theorem pair_address (temp : JLong) {i : Nat} (hi : i < 2 ^ 16) :
    temp + (2 * BitVec.ofNat 32 i : JInt).signExtend 64 * UnsafeAccess.longSize =
      cell temp (16 * i) := by
  have hint : (2 * BitVec.ofNat 32 i : JInt) = BitVec.ofNat 32 (2 * i) :=
    (BitVec.ofNat_mul 2 i).symm
  have hmul : BitVec.ofNat 64 (2 * i) * UnsafeAccess.longSize = BitVec.ofNat 64 (2 * i * 8) :=
    (BitVec.ofNat_mul (2 * i) 8).symm
  have hoff : 2 * i * 8 = 16 * i := by omega
  rw [hint, UnsafeAccess.signExtend_ofNat (by omega), hmul, hoff, cell]

@[simp] theorem addPacket_mem (temp : JLong) (i : Nat) (rp : ReceivePoller) (w : World) :
    (addPacket temp i rp w).2.mem = w.mem := rfl

theorem addPacket_packets (temp : JLong) {i : Nat} (hi : i < 2 ^ 16) (rp : ReceivePoller)
    (w : World) : (addPacket temp i rp w).1.packets = rp.packets ++
      [⟨word64 w.mem (cell temp (16 * i)), word64 w.mem (cell (cell temp (16 * i)) 8)⟩] := by
  have hat := UnsafeAccess.setCurrentPointer_at rp.ua (cell temp (16 * i))
  have hfst := hat.address (by decide)
  have hsnd := (hat.advance 8).address (by decide)
  rw [cell_zero] at hfst
  unfold addPacket
  simp only [pair_address temp hi, UnsafeAccess.getLong, World.touch_mem, Packet.new, hfst]
  rw [hsnd]

theorem burstLoop_spec (temp : JLong) (n i : Nat) (rp : ReceivePoller) (w : World)
    (hn : i + n ≤ 2 ^ 16) :
    (burstLoop temp n i rp w).1.packets = rp.packets ++ packetsAt w.mem (cell temp (16 * i)) n ∧
    (burstLoop temp n i rp w).1.mem_pointer = rp.mem_pointer ∧
    (burstLoop temp n i rp w).2.mem = w.mem := by
  induction n generalizing i rp w with
  | zero => simp [burstLoop, packetsAt]
  | succ n ih =>
    obtain ⟨hpackets, hpointer, hmem⟩ :=
      ih (i + 1) (addPacket temp i rp w).1 (addPacket temp i rp w).2 (by omega)
    -- each packet takes two words of the buffer
    have hnext : cell temp (16 * (i + 1)) = cell (cell temp (16 * i)) 16 := by
      rw [Nat.mul_add, cell_add]
      rfl
    rw [addPacket_packets temp (by omega), addPacket_mem, hnext] at hpackets
    refine ⟨?_, hpointer, hmem⟩
    rw [packetsAt]
    exact hpackets.trans (List.append_assoc _ _ _)

/-! ## Section 3: One poll -/

section poll
variable (rp : ReceivePoller) (delivered : List RxMbuf) (w : World)

/-- A poll that received nothing hands out the list of an earlier poll. -/
theorem getBurst_nil : (rp.getBurst [] w).1 = rp.packets ∧
    (rp.getBurst [] w).2.1.packets = rp.packets ∧
    (rp.getBurst [] w).2.1.mem_pointer = rp.mem_pointer := by
  have hcount := getShort_receive_burst rp.ua rp.mem_pointer [] w (by decide)
  unfold getBurst
  simp only [hcount]
  exact ⟨rfl, rfl, rfl⟩

/-- **One poll**: the packets of a non-empty burst, in order. -/
theorem getBurst_cons (hcount : delivered.length < 2 ^ 16) (hne : delivered ≠ []) :
    (rp.getBurst delivered w).1 = delivered.map RxMbuf.packet ∧
    (rp.getBurst delivered w).2.1.packets = delivered.map RxMbuf.packet ∧
    (rp.getBurst delivered w).2.1.mem_pointer = rp.mem_pointer ∧
    (rp.getBurst delivered w).2.2.mem = (nat_receive_burst rp.mem_pointer delivered w).mem := by
  have hlen : 0 < delivered.length := List.length_pos_iff.mpr hne
  have hpos : (BitVec.ofNat 32 delivered.length).toInt > 0 := by
    rw [UnsafeAccess.toInt_ofNat (by omega)]
    omega
  have htoNat : (BitVec.ofNat 32 delivered.length).toNat = delivered.length := by
    rw [BitVec.toNat_ofNat]
    omega
  have hcell : rp.mem_pointer +
      ((rp.ua.setCurrentPointer rp.mem_pointer).advance 2).offset.signExtend 64 =
        cell rp.mem_pointer 2 :=
    ((UnsafeAccess.setCurrentPointer_at rp.ua rp.mem_pointer).advance 2).address (by decide)
  have hdecoded : packetsAt (nat_receive_burst rp.mem_pointer delivered w).mem
      (cell rp.mem_pointer 2) delivered.length = delivered.map RxMbuf.packet :=
    packetsAt_of_words _ _ _ (nat_receive_burst_words _ _ _ hcount)
  unfold getBurst
  simp only [getShort_receive_burst rp.ua rp.mem_pointer delivered w hcount, if_pos hpos, htoNat]
  -- after the count has been read, the cursor stands on the first pair
  have hua : ((rp.ua.setCurrentPointer rp.mem_pointer).getShort
      (nat_receive_burst rp.mem_pointer delivered w)).2.1 =
      (rp.ua.setCurrentPointer rp.mem_pointer).advance 2 := rfl
  rw [hua, hcell]
  obtain ⟨hpackets, hpointer, hmem⟩ := burstLoop_spec (cell rp.mem_pointer 2) delivered.length 0 _
    ((rp.ua.setCurrentPointer rp.mem_pointer).getShort
      (nat_receive_burst rp.mem_pointer delivered w)).2.2 (by omega)
  have hlist := hpackets.trans ((congrArg (([] : List Packet) ++ ·) ?_).trans
    (List.nil_append (delivered.map RxMbuf.packet)))
  · exact ⟨hlist, hlist, hpointer, hmem⟩
  · rw [Nat.mul_zero, cell_zero]
    exact hdecoded

end poll

end ReceivePoller

end PacketPro.DpdkJava
