import PacketPro.Native.Utils

/-! # `DpdkAccess.c`: The Packet Path

    The three JNI functions on the packet path, identical in both versions of
    the framework: `nat_receive_burst` encodes a received burst into the
    buffer of the poller, `nat_send_packets` and `nat_free_packets` decode a
    buffer of mbuf pointers. A buffer is a 16-bit count followed by 64-bit
    words, at byte offset 2.

    The log of accesses has those of `Utils.c` and of the Java classes. The
    structures behind the mbuf pointers belong to DPDK: what its functions do
    there, and what `rte_pktmbuf_mtod` reads, is not in the log.
-/

open ByteMem Batching

namespace PacketPro

/-! ## Section 1: Definitions -/

/-- `rte_eth_rx_burst` fills the first entries of the caller's local array. -/
def rte_eth_rx_burst (delivered : List RxMbuf) (w : World) : World :=
  { w with burstSlots := List.range delivered.length ++ w.burstSlots }

/-- The loop of `nat_receive_burst`: mbuf pointer, then IP header pointer, which
    `rte_pktmbuf_mtod` finds with two loads from the mbuf that are not logged. -/
def receiveLoop (point : Addr) : List RxMbuf → Nat → World → World
  | [], _, w => w
  | r :: rs, offset, w =>
    let w := insert64 point offset r.mbuf w
    let offset := offset + 8
    let w := insert64 point offset r.ip w
    let offset := offset + 8
    receiveLoop point rs offset w

/-- What the driver delivered is given, at most as many packets as it is asked
    for. `nb_rx` is narrowed to the 16-bit `packet_count`, which bounds the loop. -/
def nat_receive_burst (mem_pointer : Addr) (delivered : List RxMbuf) (w : World) : World :=
  let w := rte_eth_rx_burst delivered w
  let packet_count : BitVec 16 := BitVec.ofNat 16 delivered.length
  let w := insert16 mem_pointer 0 packet_count w
  if packet_count.toNat > 0 then
    receiveLoop mem_pointer (delivered.take packet_count.toNat) 2 w
  else
    w

def rte_pktmbuf_free (m : Mbuf) (w : World) : World :=
  { w with nic := { w.nic with freed := w.nic.freed ++ [m] } }

/-- The loop of `nat_free_packets`. -/
def freeLoop (point : Addr) : Nat → Nat → World → World
  | 0, _, w => w
  | n + 1, offset, w =>
    let (freeing, w) := get64 point offset w
    let w := rte_pktmbuf_free freeing w
    freeLoop point n (offset + 8) w

def nat_free_packets (mem_pointer : Addr) (w : World) : World :=
  let (packet_count, w) := get16 mem_pointer 0 w
  let w := { w with nic := { w.nic with
    freeCounts := w.nic.freeCounts ++ [packet_count.toNat] } }
  freeLoop mem_pointer packet_count.toNat 2 w

/-- DPDK reads the array in place and takes over a first part of it; the
    return value says how much. -/
def rte_eth_tx_burst (tx_pkts : Addr) (nb_pkts : Nat) (w : World) : Nat × World :=
  let k := (w.nic.accept w.nic.txBursts.length nb_pkts).val
  let w := w.touch tx_pkts (8 * nb_pkts)
  (k, { w with nic := { w.nic with
    txBursts := w.nic.txBursts ++ [⟨wordsAt w.mem tx_pkts nb_pkts, k⟩] } })

/-- The return value of `rte_eth_tx_burst` is dropped here. -/
def nat_send_packets (mem_pointer : Addr) (w : World) : World :=
  let (packet_count, w) := get16 mem_pointer 0 w
  (rte_eth_tx_burst (cell mem_pointer 2) packet_count.toNat w).2

/-! ## Section 2: Receiving -/

/-- The words that encode a burst. -/
def burstWords (rs : List RxMbuf) : List (BitVec 64) := rs.flatMap fun r => [r.mbuf, r.ip]

/-- One `insert64` right behind `j` words of a buffer. -/
theorem insert64_wordsAt (point : Addr) (j : Nat) (value : BitVec 64) (w : World)
    (hj : 8 * (j + 1) ≤ 2 ^ 64) :
    wordsAt (insert64 point (2 + 8 * j) value w).mem (cell point 2) (j + 1) =
      wordsAt w.mem (cell point 2) j ++ [value] := by
  rw [insert64_mem, cell_add]
  exact wordsAt_storeLE_end w.mem (cell point 2) j value hj

/-- The receive loop appends the encoded burst to the words already there. -/
theorem receiveLoop_wordsAt (point : Addr) (rs : List RxMbuf) (j : Nat) (w : World)
    (hj : 8 * (j + 2 * rs.length) ≤ 2 ^ 64) :
    wordsAt (receiveLoop point rs (2 + 8 * j) w).mem (cell point 2) (j + 2 * rs.length) =
      wordsAt w.mem (cell point 2) j ++ burstWords rs := by
  induction rs generalizing j w with
  | nil => simp [receiveLoop, burstWords]
  | cons r rs ih =>
    simp only [List.length_cons] at hj
    -- the two words of this packet, then those of the others
    have h₁ := insert64_wordsAt point j r.mbuf w (by omega)
    have h₂ := insert64_wordsAt point (j + 1) r.ip (insert64 point (2 + 8 * j) r.mbuf w) (by omega)
    have hrest := ih (j + 2)
      (insert64 point (2 + 8 * (j + 1)) r.ip (insert64 point (2 + 8 * j) r.mbuf w)) (by omega)
    have hcount : j + 2 * (r :: rs).length = j + 2 + 2 * rs.length := by
      simp only [List.length_cons]; omega
    have hcons : burstWords (r :: rs) = r.mbuf :: r.ip :: burstWords rs := rfl
    show wordsAt (receiveLoop point rs (2 + 8 * (j + 2))
      (insert64 point (2 + 8 * (j + 1)) r.ip (insert64 point (2 + 8 * j) r.mbuf w))).mem _ _ = _
    rw [hcount, hrest, h₂, h₁, hcons]
    simp

/-- The receive loop leaves every byte outside its slice of the buffer alone. -/
theorem receiveLoop_mem_outside (point : Addr) (rs : List RxMbuf) (offset : Nat) (w : World)
    {b : Addr} (hb : b ∉ (⟨cell point offset, 16 * rs.length⟩ : Region 64))
    (hfit : offset + 16 * rs.length ≤ 2 ^ 64) :
    (receiveLoop point rs offset w).mem b = w.mem b := by
  induction rs generalizing offset w with
  | nil => rfl
  | cons r rs ih =>
    simp only [List.length_cons] at hb hfit
    have hsub : ∀ i n, i + n ≤ 16 * (rs.length + 1) →
        b ∉ (⟨cell point (offset + i), n⟩ : Region 64) := by
      intro i n hi hmem
      exact hb (cell_slice_subset point offset _ i n hi (by omega) b hmem)
    have hrest := ih (offset + 16)
      (insert64 point (offset + 8) r.ip (insert64 point offset r.mbuf w))
      (hsub 16 _ (by omega)) (by omega)
    show (receiveLoop point rs (offset + 16) _).mem b = _
    rw [hrest, insert64_mem, insert64_mem, storeLE_of_not_mem _ _ _ _ (hsub 8 8 (by omega))]
    exact storeLE_of_not_mem _ _ _ _ (hsub 0 8 (by omega))

theorem receiveLoop_confined {allowed : AccessKind → Addr → Prop} (point : Addr)
    (rs : List RxMbuf) (offset : Nat) (w : World)
    (h : ∀ b, b ∈ (⟨cell point offset, 16 * rs.length⟩ : Region 64) → allowed .store b)
    (hfit : offset + 16 * rs.length ≤ 2 ^ 64) :
    World.Confined allowed w (receiveLoop point rs offset w) := by
  induction rs generalizing offset w with
  | nil => exact World.Confined.refl w
  | cons r rs ih =>
    simp only [List.length_cons] at h hfit
    have hsub : ∀ i n, i + n ≤ 16 * (rs.length + 1) →
        ∀ b, b ∈ (⟨cell point (offset + i), n⟩ : Region 64) → allowed .store b := by
      intro i n hi b hmem
      exact h b (cell_slice_subset point offset _ i n hi (by omega) b hmem)
    have h₁ := insert64_confined r.mbuf w (hsub 0 8 (by omega))
    have h₂ := insert64_confined r.ip (insert64 point offset r.mbuf w) (hsub 8 8 (by omega))
    exact (h₁.trans h₂).trans (ih (offset + 16) _ (hsub 16 _ (by omega)) (by omega))

/-- What `nat_receive_burst` computes on a burst whose count fits in 16 bits:
    the count, then the loop over the whole burst. -/
theorem nat_receive_burst_eq (mem_pointer : Addr) (rs : List RxMbuf) (w : World)
    (hcount : rs.length < 2 ^ 16) :
    nat_receive_burst mem_pointer rs w =
      receiveLoop mem_pointer rs 2
        (insert16 mem_pointer 0 (BitVec.ofNat 16 rs.length) (rte_eth_rx_burst rs w)) := by
  have hlen : (BitVec.ofNat 16 rs.length).toNat = rs.length := by
    rw [BitVec.toNat_ofNat, Nat.mod_eq_of_lt hcount]
  unfold nat_receive_burst
  simp only [hlen, List.take_length]
  cases rs with
  | nil => rfl
  | cons r rs => rfl

theorem nat_receive_burst_words (mem_pointer : Addr) (rs : List RxMbuf) (w : World)
    (hcount : rs.length < 2 ^ 16) :
    wordsAt (nat_receive_burst mem_pointer rs w).mem (cell mem_pointer 2) (2 * rs.length) =
      burstWords rs := by
  have h := receiveLoop_wordsAt mem_pointer rs 0
    (insert16 mem_pointer 0 (BitVec.ofNat 16 rs.length) (rte_eth_rx_burst rs w)) (by omega)
  rw [nat_receive_burst_eq mem_pointer rs w hcount]
  simpa using h

/-- The count that a reader of the buffer finds. -/
theorem nat_receive_burst_count (mem_pointer : Addr) (rs : List RxMbuf) (w : World)
    (hcount : rs.length < 2 ^ 16) :
    loadLE (nat_receive_burst mem_pointer rs w).mem mem_pointer 2 = rs.length := by
  have hdisj := Region.slice_disjoint (⟨mem_pointer, 2 ^ 64⟩ : Region 64) 0 2 2 (16 * rs.length)
    (by omega) (by omega) (by omega)
  rw [nat_receive_burst_eq mem_pointer rs w hcount]
  -- the loop writes behind the count
  have hkept : loadLE (receiveLoop mem_pointer rs 2 (insert16 mem_pointer 0
      (BitVec.ofNat 16 rs.length) (rte_eth_rx_burst rs w))).mem mem_pointer 2 =
      loadLE (insert16 mem_pointer 0 (BitVec.ofNat 16 rs.length)
        (rte_eth_rx_burst rs w)).mem mem_pointer 2 := by
    apply loadLE_congr (by decide)
    intro b hb
    apply receiveLoop_mem_outside _ _ _ _ _ (by omega)
    have hb' : b ∈ (⟨mem_pointer, 2 ^ 64⟩ : Region 64).slice 0 2 := by
      simp only [Region.slice, BitVec.add_zero]
      exact hb
    exact hdisj b hb'
  rw [hkept, insert16_mem, cell_zero, loadLE_storeLE_self _ _ _ _ (by decide), BitVec.toNat_ofNat]
  omega

/-- Bytes outside the encoded burst keep their value. -/
theorem nat_receive_burst_mem_outside (mem_pointer : Addr) (rs : List RxMbuf) (w : World)
    (hcount : rs.length < 2 ^ 16) {b : Addr}
    (hb : b ∉ (⟨mem_pointer, 2 + 16 * rs.length⟩ : Region 64)) :
    (nat_receive_burst mem_pointer rs w).mem b = w.mem b := by
  have hsub : ∀ i n, i + n ≤ 2 + 16 * rs.length →
      b ∉ (⟨cell mem_pointer i, n⟩ : Region 64) := by
    intro i n hi hmem
    exact hb (cell_subset mem_pointer _ i n hi (by omega) b hmem)
  rw [nat_receive_burst_eq mem_pointer rs w hcount,
    receiveLoop_mem_outside _ _ _ _ (hsub 2 _ (by omega)) (by omega), insert16_mem,
    storeLE_of_not_mem _ _ _ _ (hsub 0 2 (by omega))]
  rfl

/-- Beyond filling the local array, receiving only stores into the buffer. -/
theorem nat_receive_burst_confined {allowed : AccessKind → Addr → Prop} (mem_pointer : Addr)
    (rs : List RxMbuf) (w : World) (hcount : rs.length < 2 ^ 16)
    (h : ∀ b, b ∈ (⟨mem_pointer, 2 + 16 * rs.length⟩ : Region 64) → allowed .store b) :
    World.Confined allowed (rte_eth_rx_burst rs w) (nat_receive_burst mem_pointer rs w) := by
  have hsub : ∀ i n, i + n ≤ 2 + 16 * rs.length →
      ∀ b, b ∈ (⟨cell mem_pointer i, n⟩ : Region 64) → allowed .store b := by
    intro i n hi b hmem
    exact h b (cell_subset mem_pointer _ i n hi (by omega) b hmem)
  rw [nat_receive_burst_eq mem_pointer rs w hcount]
  have h₁ := insert16_confined (BitVec.ofNat 16 rs.length) (rte_eth_rx_burst rs w)
    (hsub 0 2 (by omega))
  exact h₁.trans (receiveLoop_confined mem_pointer rs 2 _ (hsub 2 _ (by omega)) (by omega))

/-! ## Section 3: Freeing and sending -/

theorem get16_buffer_toNat (mem_pointer : Addr) (w : World) :
    (get16 mem_pointer 0 w).1.toNat = loadLE w.mem mem_pointer 2 := by
  have hlt := loadLE_lt w.mem mem_pointer 2
  rw [get16_fst, BitVec.toNat_ofNat, cell_zero]
  omega

/-- A buffer of words with the count stored in front of them: this is what a
    native function finds. -/
theorem count_stored {m : Memory 64} {start : Addr} {held : List Mbuf}
    (hwords : wordsAt m (cell start 2) held.length = held) (hlen : held.length < 2 ^ 16) :
    loadLE (storeLE m start 2 held.length) start 2 = held.length ∧
    wordsAt (storeLE m start 2 held.length) (cell start 2) held.length = held := by
  constructor
  · rw [loadLE_storeLE_self _ _ _ _ (by decide)]
    omega
  · -- the count and the words are different slices of the buffer
    have hdisj := Region.slice_disjoint (⟨start, 2 + 8 * held.length⟩ : Region 64)
      2 (8 * held.length) 0 2 (by omega) (by omega) (by omega)
    have hkept : wordsAt (storeLE m start 2 held.length) (cell start 2) held.length =
        wordsAt m (cell start 2) held.length := by
      apply wordsAt_congr (by omega)
      intro b hb
      have hout := hdisj b hb
      exact storeLE_of_not_mem _ _ _ _ (by simpa [Region.slice] using hout)
    rw [hkept]
    exact hwords

/-- What freeing one batch of mbufs does to the NIC. -/
def Nic.release (ms : List Mbuf) (nic : Nic) : Nic :=
  { nic with freed := nic.freed ++ ms, freeCounts := nic.freeCounts ++ [ms.length] }

/-- What presenting one batch of mbufs for transmission does to the NIC. -/
def Nic.transmit (ms : List Mbuf) (nic : Nic) : Nic :=
  { nic with
    txBursts := nic.txBursts ++ [⟨ms, nic.accept nic.txBursts.length ms.length⟩] }

/-- From `w` to `w'` memory was only read, in allowed ways, while the NIC
    changed as `emit` says. -/
structure Drained (allowed : AccessKind → Addr → Prop) (emit : Nic → Nic) (w w' : World) :
    Prop where
  mem : w'.mem = w.mem
  clock : w'.clock = w.clock
  nic : w'.nic = emit w.nic
  safe : w.Safe allowed → w'.Safe allowed

/-- A native function that decodes the buffer it is given and passes its mbufs
    on in one batch. -/
def Drains (native : Addr → World → World) (emit : List Mbuf → Nic → Nic) : Prop :=
  ∀ (allowed : AccessKind → Addr → Prop) (mem_pointer : Addr) (w : World) (n : Nat),
    loadLE w.mem mem_pointer 2 = n →
    (∀ b, b ∈ (⟨mem_pointer, 2 + 8 * n⟩ : Region 64) → allowed .load b) →
    Drained allowed (emit (wordsAt w.mem (cell mem_pointer 2) n)) w (native mem_pointer w)

section freeing
variable {allowed : AccessKind → Addr → Prop}

@[simp] theorem rte_pktmbuf_free_mem (m : Mbuf) (w : World) :
    (rte_pktmbuf_free m w).mem = w.mem := rfl

@[simp] theorem rte_pktmbuf_free_clock (m : Mbuf) (w : World) :
    (rte_pktmbuf_free m w).clock = w.clock := rfl

@[simp] theorem rte_pktmbuf_free_nic (m : Mbuf) (w : World) :
    (rte_pktmbuf_free m w).nic = { w.nic with freed := w.nic.freed ++ [m] } := rfl

theorem freeLoop_succ (point : Addr) (n offset : Nat) (w : World) :
    freeLoop point (n + 1) offset w = freeLoop point n (offset + 8)
      (rte_pktmbuf_free (get64 point offset w).1 (get64 point offset w).2) := rfl

/-- The whole freeing loop: it frees the next `n` words of the buffer. -/
theorem freeLoop_drained (point : Addr) (n offset : Nat) (w : World)
    (h : ∀ b, b ∈ (⟨cell point offset, 8 * n⟩ : Region 64) → allowed .load b)
    (hfit : 8 * n ≤ 2 ^ 64) :
    Drained allowed
      (fun nic => { nic with freed := nic.freed ++ wordsAt w.mem (cell point offset) n })
      w (freeLoop point n offset w) := by
  induction n generalizing offset w with
  | zero => exact ⟨rfl, rfl, by simp [freeLoop], id⟩
  | succ n ih =>
    have hsub : ∀ i k, i + k ≤ 8 * (n + 1) →
        ∀ b, b ∈ (⟨cell point (offset + i), k⟩ : Region 64) → allowed .load b := by
      intro i k hi b hmem
      exact h b (cell_slice_subset point offset _ i k hi hfit b hmem)
    have hload : World.Confined allowed w (get64 point offset w).2 :=
      get64_confined w (hsub 0 8 (by omega))
    have hrest := ih (offset + 8)
      (rte_pktmbuf_free (get64 point offset w).1 (get64 point offset w).2)
      (hsub 8 _ (by omega)) (by omega)
    -- freeing does not write to memory, so the rest of the words is still there
    rw [rte_pktmbuf_free_mem, get64_mem] at hrest
    rw [freeLoop_succ, wordsAt_succ_eq_cons, ← cell_add]
    constructor
    · exact hrest.mem
    · rw [hrest.clock, rte_pktmbuf_free_clock, hload.clock]
    · rw [hrest.nic, rte_pktmbuf_free_nic, hload.nic, get64_fst]
      simp only [List.append_assoc, List.singleton_append]
    · exact fun hs => hrest.safe (hload.safe hs)

/-- Permission to read a buffer is permission to read each part of it. -/
theorem allowed_part {mem_pointer : Addr} {n : Nat} (hn : n < 2 ^ 16)
    (h : ∀ b, b ∈ (⟨mem_pointer, 2 + 8 * n⟩ : Region 64) → allowed .load b) (i k : Nat)
    (hi : i + k ≤ 2 + 8 * n) :
    ∀ b, b ∈ (⟨cell mem_pointer i, k⟩ : Region 64) → allowed .load b := by
  intro b hmem
  exact h b (cell_subset mem_pointer _ i k hi (by omega) b hmem)

/-- **Freeing**: `nat_free_packets` frees exactly the mbufs of the buffer. -/
theorem nat_free_packets_drains : Drains nat_free_packets Nic.release := by
  intro allowed mem_pointer w n hn h
  have hlt : n < 2 ^ 16 := hn ▸ loadLE_lt w.mem mem_pointer 2
  have hpart := allowed_part hlt h
  have hcount : (get16 mem_pointer 0 w).1.toNat = n := by
    rw [get16_buffer_toNat, hn]
  have hget := get16_confined w (hpart 0 2 (by omega))
  unfold nat_free_packets
  simp only [hcount]
  -- the loop starts behind the count and frees as many mbufs as the count says
  have hloop := freeLoop_drained mem_pointer n 2 { (get16 mem_pointer 0 w).2 with
    nic := { (get16 mem_pointer 0 w).2.nic with
      freeCounts := (get16 mem_pointer 0 w).2.nic.freeCounts ++ [n] } }
    (hpart 2 _ (by omega)) (by omega)
  refine ⟨hloop.mem, ?_, ?_, fun hs => hloop.safe (hget.safe hs)⟩
  · rw [hloop.clock]
    exact hget.clock
  · rw [hloop.nic, hget.nic, Nic.release, wordsAt_length]
    rfl

/-- **Sending**: `nat_send_packets` presents exactly the mbufs of the buffer,
    of which the NIC takes a first part. -/
theorem nat_send_packets_drains : Drains nat_send_packets Nic.transmit := by
  intro allowed mem_pointer w n hn h
  have hlt : n < 2 ^ 16 := hn ▸ loadLE_lt w.mem mem_pointer 2
  have hpart := allowed_part hlt h
  have hcount : (get16 mem_pointer 0 w).1.toNat = n := by
    rw [get16_buffer_toNat, hn]
  have hget := get16_confined w (hpart 0 2 (by omega))
  have htouch := World.touch_confined (get16 mem_pointer 0 w).2 (hpart 2 (8 * n) (by omega))
  -- the batch size indexes the type of the answer, so it is fixed first
  have hsend : nat_send_packets mem_pointer w =
      (rte_eth_tx_burst (cell mem_pointer 2) n (get16 mem_pointer 0 w).2).2 := by
    unfold nat_send_packets
    simp only [hcount]
  rw [hsend]
  unfold rte_eth_tx_burst
  refine ⟨rfl, hget.clock, ?_, fun hs => htouch.safe (hget.safe hs)⟩
  have htaken : (w.nic.accept w.nic.txBursts.length n).val =
      (w.nic.accept w.nic.txBursts.length
        (wordsAt w.mem (cell mem_pointer 2) n).length).val := by
    rw [wordsAt_length]
  simp only [htouch.nic, hget.nic, World.touch_mem, get16_mem, Nic.transmit, htaken]

end freeing

end PacketPro
