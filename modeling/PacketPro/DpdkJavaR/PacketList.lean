import PacketPro.Jvm.Packet

/-! # `DpdkJava-R/PacketList.java` and `ReceivePoller.java`

    The list of received packets is the native buffer itself. Iterating it
    moves one cursor (`ua_list`) over the buffer and points one packet object
    at each pair in turn; the accessors of that packet use another cursor
    (`ua_packet`).

    **Loop rule** (`forEach_rule`): what the loop body preserves, packet by
    packet, holds after any number of passes, provided that the body
    leaves the buffer alone.
-/

open ByteMem

namespace PacketPro.DpdkJavaR

/-! ## Section 1: Definitions -/

structure PacketList where
  startPointer : JLong
  returnedPacket : Packet
  size : JInt
  ua_packet : UnsafeAccess
  ua_list : UnsafeAccess

namespace PacketList

def new : PacketList :=
  let (returnedPacket, ua_packet) := Packet.new 0 0 UnsafeAccess.new
  { startPointer := 0, returnedPacket, size := 0, ua_packet, ua_list := UnsafeAccess.new }

def reset (l : PacketList) (size : JInt) (startPointer : JLong) : PacketList :=
  { l with size, startPointer }

/-- A new iterator has `current = 0` and shares the cursor of the list. -/
def iterator (l : PacketList) : JInt × PacketList :=
  (0, { l with ua_list := l.ua_list.setCurrentPointer l.startPointer })

def hasNext (l : PacketList) (current : JInt) : Bool := decide (current.toInt < l.size.toInt)

/-- The packet returned is always the same object. -/
def next (l : PacketList) (current : JInt) (w : World) : JInt × PacketList × World :=
  let (mbuf, ua_list, w) := l.ua_list.getLong w
  let (packet, ua_list, w) := ua_list.getLong w
  (current + 1, { l with ua_list, returnedPacket := ⟨mbuf, packet⟩ }, w)

/-- A loop body works on the current packet through the cursor of the packet
    object, on a state of its own and on the world. -/
abbrev Body (σ : Type) : Type :=
  Packet → UnsafeAccess → σ → World → UnsafeAccess × σ × World

/-- One pass of a `for` loop over the list. -/
def pass {σ : Type} (body : Body σ) (current : JInt) (l : PacketList) (s : σ) (w : World) :
    JInt × PacketList × σ × World :=
  let (current, l, w) := l.next current w
  let (ua_packet, s, w) := body l.returnedPacket l.ua_packet s w
  (current, { l with ua_packet }, s, w)

/-- At most `fuel` passes of a `for` loop that has reached `current`. -/
def forEachFrom {σ : Type} (body : Body σ) :
    Nat → JInt → PacketList → σ → World → JInt × PacketList × σ × World
  | 0, current, l, s, w => (current, l, s, w)
  | fuel + 1, current, l, s, w =>
    if l.hasNext current then
      let (current, l, s, w) := pass body current l s w
      forEachFrom body fuel current l s w
    else
      (current, l, s, w)

/-- The first `fuel` passes of `for (Packet p : l) body`. -/
def forEachUpTo {σ : Type} (body : Body σ) (fuel : Nat) (l : PacketList) (s : σ) (w : World) :
    JInt × PacketList × σ × World :=
  let (current, l) := l.iterator
  forEachFrom body fuel current l s w

/-- `for (Packet p : l) body`: one pass for each packet is enough. -/
def forEach {σ : Type} (body : Body σ) (l : PacketList) (s : σ) (w : World) :
    PacketList × σ × World :=
  (forEachUpTo body l.size.toNat l s w).2

end PacketList

def DEFAULT_GET_SIZE : JInt := 512

structure ReceivePoller where
  ua : UnsafeAccess
  packet_all : JLong
  packet_all_size : JLong
  packet_interval : JLong
  packet_interval_size : JLong
  get_size : JInt
  packets : PacketList
  mem_pointer : JLong
  memory_size : JInt

namespace ReceivePoller

/-- The constructor, given the address that `allocateMemory` returns. -/
def new (mem_pointer : JLong) : ReceivePoller where
  ua := UnsafeAccess.new
  packet_all := 0
  packet_all_size := 0
  packet_interval := 0
  packet_interval_size := 0
  get_size := DEFAULT_GET_SIZE
  packets := PacketList.new
  mem_pointer := mem_pointer
  memory_size := 64 / 8 * DEFAULT_GET_SIZE * 2 + 16

/-- One poll. The flag says whether the `packets` list is returned; `null` is
    returned for an empty burst. -/
def getBurst (rp : ReceivePoller) (delivered : List RxMbuf) (w : World) :
    Bool × ReceivePoller × World :=
  let w := nat_receive_burst rp.mem_pointer delivered w
  let ua := rp.ua.setCurrentPointer rp.mem_pointer
  let (packet_count, ua, w) := ua.getShort w
  let rp := { rp with
    ua
    packet_all := rp.packet_all + packet_count.signExtend 64
    packet_interval := rp.packet_interval + packet_count.signExtend 64 }
  -- the list object is used again: it is pointed at the buffer of this poll
  if packet_count.toInt > 0 then
    (true, { rp with packets := rp.packets.reset packet_count (rp.mem_pointer + 2) }, w)
  else
    (false, rp, w)

end ReceivePoller

/-! ## Section 2: Iterating -/

namespace PacketList

/-- The iterator stands before packet `k` of the `n` packets at `a`. -/
structure Before (l : PacketList) (current : JInt) (a : Addr) (n k : Nat) : Prop where
  size : l.size = BitVec.ofNat 32 n
  current : current = BitVec.ofNat 32 k
  cursor : l.ua_list.At a (16 * k)

theorem iterator_before {l : PacketList} {n : Nat} (h : l.size = BitVec.ofNat 32 n) :
    l.iterator.2.Before l.iterator.1 l.startPointer n 0 :=
  ⟨h, rfl, UnsafeAccess.setCurrentPointer_at l.ua_list l.startPointer⟩

theorem hasNext_iff {l : PacketList} {current : JInt} {a : Addr} {n k : Nat}
    (h : l.Before current a n k) (hn : n < 2 ^ 16) (hk : k ≤ n) :
    l.hasNext current = true ↔ k < n := by
  unfold hasNext
  rw [decide_eq_true_iff, h.size, h.current, UnsafeAccess.toInt_ofNat (by omega),
    UnsafeAccess.toInt_ofNat (by omega)]
  omega

/-- The pair that the iterator reads next. -/
def pairAt (m : Memory 64) (a : Addr) (k : Nat) : Packet :=
  ⟨word64 m (cell a (16 * k)), word64 m (cell a (16 * k + 8))⟩

theorem next_spec {l : PacketList} {current : JInt} {a : Addr} {n k : Nat}
    (h : l.Before current a n k) (hk : k < 2 ^ 16) (w : World) :
    (l.next current w).2.1.Before (l.next current w).1 a n (k + 1) ∧
    (l.next current w).2.1.returnedPacket = pairAt w.mem a k ∧
    (l.next current w).2.2 = (w.touch (cell a (16 * k)) 8).touch (cell a (16 * k + 8)) 8 := by
  -- two reads through the cursor: the mbuf, then the packet
  have hfst := h.cursor.address (by omega)
  have hsnd := (h.cursor.advance 8).address (by omega)
  unfold next UnsafeAccess.getLong pairAt
  simp only [hfst, hsnd, World.touch_mem]
  refine ⟨⟨h.size, ?_, ?_⟩, trivial, trivial⟩
  · rw [h.current, BitVec.ofNat_add]
    rfl
  · have hcursor := (h.cursor.advance 8).advance 8
    rw [show 16 * (k + 1) = 16 * k + 8 + 8 by omega]
    exact hcursor

theorem pass_before {σ : Type} (body : Body σ) {l : PacketList} {current : JInt} {a : Addr}
    {n k : Nat} (h : l.Before current a n k) (hk : k < 2 ^ 16) (s : σ) (w : World) :
    (pass body current l s w).2.1.Before (pass body current l s w).1 a n (k + 1) := by
  obtain ⟨hnext, -, -⟩ := next_spec h hk w
  exact ⟨hnext.size, hnext.current, hnext.cursor⟩

theorem pairAt_zero (m : Memory 64) (a : Addr) :
    pairAt m a 0 = ⟨word64 m a, word64 m (cell a 8)⟩ := by
  simp [pairAt]

theorem pairAt_succ (m : Memory 64) (a : Addr) (k : Nat) :
    pairAt m a (k + 1) = pairAt m (cell a 16) k := by
  have hshift : ∀ i, cell (cell a 16) i = cell a (16 + i) := by
    intro i
    rw [cell_add a 16 i]
    rfl
  unfold pairAt
  rw [hshift, hshift, show 16 * (k + 1) = 16 + 16 * k by omega,
    show 16 + 16 * k + 8 = 16 + (16 * k + 8) by omega]

/-- The packets of a buffer, one by one. -/
theorem packetsAt_getElem? (m : Memory 64) (a : Addr) {n k : Nat} (hk : k < n) :
    (packetsAt m a n)[k]? = some (pairAt m a k) := by
  induction n generalizing a k with
  | zero => omega
  | succ n ih =>
    cases k with
    | zero => rw [packetsAt, List.getElem?_cons_zero, pairAt_zero]
    | succ k =>
      rw [packetsAt, List.getElem?_cons_succ, ih (cell a 16) (by omega), pairAt_succ]

@[simp] theorem packetsAt_length (m : Memory 64) (a : Addr) (n : Nat) :
    (packetsAt m a n).length = n := by
  induction n generalizing a with
  | zero => rfl
  | succ n ih => rw [packetsAt, List.length_cons, ih]

theorem pairAt_congr {m m' : Memory 64} {a : Addr} {n k : Nat} (hk : k < n) (hn : n < 2 ^ 16)
    (h : ∀ b, b ∈ (⟨a, 16 * n⟩ : Region 64) → m b = m' b) : pairAt m a k = pairAt m' a k := by
  have hword : ∀ i, i + 8 ≤ 16 * n → word64 m (cell a i) = word64 m' (cell a i) := by
    intro i hi
    apply word64_congr (by decide)
    intro b hb
    exact h b (cell_subset a _ i 8 hi (by omega) b hb)
  unfold pairAt
  rw [hword (16 * k) (by omega), hword (16 * k + 8) (by omega)]

section rule
variable {σ : Type} (body : Body σ) (Inv : List Packet → σ → World → Prop)
  {m₀ : Memory 64} {a : Addr} {n : Nat} {packets : List Packet}
  (hn : n < 2 ^ 16) (hpackets : packetsAt m₀ a n = packets)
  (hmem : ∀ seen s w, Inv seen s w → ∀ b, b ∈ (⟨a, 16 * n⟩ : Region 64) → w.mem b = m₀ b)
  (htouch : ∀ seen s w k, k + 8 ≤ 16 * n → Inv seen s w → Inv seen s (w.touch (cell a k) 8))
  (hbody : ∀ seen p rest ua s w, packets = seen ++ p :: rest → Inv seen s w →
    Inv (seen ++ [p]) (body p ua s w).2.1 (body p ua s w).2.2)
include hn hpackets hmem htouch hbody

/-- One pass takes the invariant from the first `k` packets to the first
    `k + 1`. -/
theorem pass_rule {l : PacketList} {current : JInt} {s : σ} {w : World} {k : Nat}
    (hbefore : l.Before current a n k) (hk : k < n) (hinv : Inv (packets.take k) s w) :
    Inv (packets.take (k + 1)) (pass body current l s w).2.2.1 (pass body current l s w).2.2.2 := by
  obtain ⟨-, hreturned, hw⟩ := next_spec hbefore (by omega) w
  -- what is read now is what was there when the loop started
  have hget : packets[k]? = some (pairAt w.mem a k) := by
    rw [← hpackets, packetsAt_getElem? m₀ a hk]
    exact congrArg some (pairAt_congr hk hn fun b hb => (hmem _ _ _ hinv b hb).symm)
  have hlt : k < packets.length := by
    rw [← hpackets, packetsAt_length]
    exact hk
  have hsplit : packets = packets.take k ++ pairAt w.mem a k :: packets.drop (k + 1) := by
    have hdrop := List.drop_eq_getElem_cons hlt
    rw [List.getElem?_eq_getElem hlt, Option.some.injEq] at hget
    rw [hget] at hdrop
    rw [← hdrop, List.take_append_drop]
  have htake : packets.take (k + 1) = packets.take k ++ [pairAt w.mem a k] := by
    rw [List.take_add_one, hget]
    rfl
  -- `next` reads the two words of the pair before the body runs
  have hread := htouch _ s _ (16 * k + 8) (by omega) (htouch _ s w (16 * k) (by omega) hinv)
  rw [← hw] at hread
  have hstep := hbody _ _ _ (l.next current w).2.1.ua_packet s _ hsplit hread
  rw [htake]
  rw [← hreturned] at hstep ⊢
  exact hstep

theorem forEachFrom_rule (fuel : Nat) {l : PacketList} {current : JInt} {s : σ} {w : World}
    {k : Nat} (hbefore : l.Before current a n k) (hk : k + fuel ≤ n)
    (hinv : Inv (packets.take k) s w) :
    let r := forEachFrom body fuel current l s w
    r.2.1.Before r.1 a n (k + fuel) ∧ Inv (packets.take (k + fuel)) r.2.2.1 r.2.2.2 := by
  induction fuel generalizing l current s w k with
  | zero => exact ⟨hbefore, hinv⟩
  | succ fuel ih =>
    -- there is a packet left, so the loop does make this pass
    have hhas := (hasNext_iff hbefore hn (by omega)).mpr (show k < n by omega)
    have hnext := pass_before body hbefore (by omega) s w
    have hone := pass_rule body Inv hn hpackets hmem htouch hbody hbefore (by omega) hinv
    have hrest := ih hnext (by omega) hone
    rw [forEachFrom, if_pos hhas, show k + (fuel + 1) = k + 1 + fuel by omega]
    exact hrest

/-- **Loop rule**: an invariant that one pass carries from the packets
    seen so far to one more packet holds after the first `fuel` passes. -/
theorem forEach_rule {l : PacketList} {s : σ} {w : World} (hstart : l.startPointer = a)
    (hsize : l.size = BitVec.ofNat 32 n) (hinv : Inv [] s w) (fuel : Nat) (hfuel : fuel ≤ n) :
    let r := forEachUpTo body fuel l s w
    r.2.1.Before r.1 a n fuel ∧ Inv (packets.take fuel) r.2.2.1 r.2.2.2 := by
  subst hstart
  have h := forEachFrom_rule body Inv hn hpackets hmem htouch hbody fuel (iterator_before hsize)
    (by omega) (w := w) (s := s) (by simpa using hinv)
  simpa [forEachUpTo] using h

end rule

/-- The loop ends by itself: `hasNext` fails behind the last packet, so fuel
    beyond one pass per packet changes nothing. -/
theorem forEachFrom_fuel {σ : Type} {body : Body σ} {a : Addr} {n : Nat} (hn : n < 2 ^ 16)
    (left extra : Nat) {l : PacketList} {current : JInt} {s : σ} {w : World} {k : Nat}
    (hbefore : l.Before current a n k) (hk : k + left = n) :
    forEachFrom body (left + extra) current l s w = forEachFrom body left current l s w := by
  induction left generalizing l current s w k with
  | zero =>
    -- the iterator is at its end: the extra fuel is not used
    have hnot : ¬ l.hasNext current = true := by
      rw [hasNext_iff hbefore hn (by omega)]
      omega
    cases extra with
    | zero => rfl
    | succ extra => simp only [forEachFrom, if_neg hnot]
  | succ left ih =>
    have hnext := pass_before body hbefore (by omega) s w
    have hrest := fun s w => ih (s := s) (w := w) hnext (by omega)
    rw [show left + 1 + extra = left + extra + 1 by omega, forEachFrom, forEachFrom]
    simp only [hrest]

end PacketList

/-! ## Section 3: One poll -/

namespace ReceivePoller

section poll
variable (rp : ReceivePoller) (delivered : List RxMbuf) (w : World)

/-- The world after the native call and the read of the count. -/
theorem getBurst_world : (rp.getBurst delivered w).2.2 =
    (nat_receive_burst rp.mem_pointer delivered w).touch rp.mem_pointer 2 := by
  have haddr := UnsafeAccess.setCurrentPointer_address rp.ua rp.mem_pointer
  unfold getBurst UnsafeAccess.getShort
  simp only [haddr]
  split <;> rfl

theorem getBurst_mem : (rp.getBurst delivered w).2.2.mem =
    (nat_receive_burst rp.mem_pointer delivered w).mem := by
  rw [getBurst_world, World.touch_mem]

/-- The pairs behind the count are those of the burst. -/
theorem getBurst_packetsAt (hcount : delivered.length < 2 ^ 16) :
    packetsAt (rp.getBurst delivered w).2.2.mem (cell rp.mem_pointer 2) delivered.length =
      delivered.map RxMbuf.packet := by
  rw [getBurst_mem]
  exact packetsAt_of_words _ _ _ (nat_receive_burst_words _ _ _ hcount)

theorem getBurst_mem_pointer : (rp.getBurst delivered w).2.1.mem_pointer = rp.mem_pointer := by
  unfold getBurst
  simp only
  split <;> rfl

theorem getBurst_nil : (rp.getBurst [] w).1 = false := by
  have hcount := getShort_receive_burst rp.ua rp.mem_pointer [] w (by decide)
  unfold getBurst
  simp only [hcount]
  rfl

/-- **One poll**: the list covers the pairs behind the count. -/
theorem getBurst_cons (hcount : delivered.length < 2 ^ 16) (hne : delivered ≠ []) :
    (rp.getBurst delivered w).1 = true ∧
    (rp.getBurst delivered w).2.1.packets.startPointer = cell rp.mem_pointer 2 ∧
    (rp.getBurst delivered w).2.1.packets.size = BitVec.ofNat 32 delivered.length := by
  have hlen : 0 < delivered.length := List.length_pos_iff.mpr hne
  have hpos : (BitVec.ofNat 32 delivered.length).toInt > 0 := by
    rw [UnsafeAccess.toInt_ofNat (by omega)]
    omega
  unfold getBurst
  simp only [getShort_receive_burst rp.ua rp.mem_pointer delivered w hcount, if_pos hpos]
  exact ⟨trivial, rfl, rfl⟩

end poll

end ReceivePoller

end PacketPro.DpdkJavaR
