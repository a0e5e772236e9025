import PacketPro.DpdkJava.ReceivePoller
import PacketPro.DpdkJava.Config

/-! # Bounds of a Receive Burst

    Four numbers limit a burst: `rxburst` of the configuration, the 512 slots
    of the local array, the poller's `get_size`, and the 528 bytes that the
    poller allocated for a `get_size` of 32. The configured burst reaches the
    native side only, where the call of `rte_eth_rx_burst` narrows it to 16
    bits, and `setGetSize` comes after the allocation.

    **Main** (`inRange_iff`): whatever was configured and set, the stores of
    `nat_receive_burst` are in range exactly for bursts of up to 32 packets.
    No larger burst can come exactly when the narrowed number is at most 32.
-/

open ByteMem

namespace PacketPro

/-! ## Section 1: Which bytes were stored to -/

namespace World

/-- The same world with nothing logged yet. -/
def unlogged (w : World) : World := { w with heap := ⟨w.mem, []⟩, burstSlots := [] }

/-- Some store so far went to byte `b`. -/
def Stored (w : World) (b : Addr) : Prop := ∃ acc ∈ w.heap.log, acc.kind = .store ∧ b ∈ acc.region

end World

section stored
variable {w : World} {b : Addr}

theorem poke_stored (point : Addr) (position : Nat) (value : BitVec 8) (w : World) :
    (poke point position value w).Stored (cell point position) := by
  refine ⟨⟨.store, ⟨cell point position, 1⟩⟩, List.mem_cons_self .., rfl, ?_⟩
  show (cell point position - cell point position).toNat < 1
  rw [BitVec.sub_self]
  decide

theorem World.Stored.poke (h : w.Stored b) (point : Addr) (position : Nat) (value : BitVec 8) :
    (poke point position value w).Stored b := by
  obtain ⟨acc, hacc, hkind, hb⟩ := h
  exact ⟨acc, List.mem_cons_of_mem _ hacc, hkind, hb⟩

theorem World.Stored.insert64 (h : w.Stored b) (point : Addr) (position : Nat)
    (value : BitVec 64) : (insert64 point position value w).Stored b := by
  unfold PacketPro.insert64
  iterate 8 apply World.Stored.poke
  exact h

/-- `insert64` stores to each of its eight bytes, the highest one first. -/
theorem insert64_stored (point : Addr) (position : Nat) (value : BitVec 64) (w : World) {i : Nat}
    (hi : i < 8) : (insert64 point position value w).Stored (cell point (position + i)) := by
  unfold insert64
  -- the store of byte `i` is followed by `i` more, which keep it in the log
  match i, hi with
  | 0, _ => exact poke_stored ..
  | 1, _ =>
    iterate 1 apply World.Stored.poke
    exact poke_stored ..
  | 2, _ =>
    iterate 2 apply World.Stored.poke
    exact poke_stored ..
  | 3, _ =>
    iterate 3 apply World.Stored.poke
    exact poke_stored ..
  | 4, _ =>
    iterate 4 apply World.Stored.poke
    exact poke_stored ..
  | 5, _ =>
    iterate 5 apply World.Stored.poke
    exact poke_stored ..
  | 6, _ =>
    iterate 6 apply World.Stored.poke
    exact poke_stored ..
  | 7, _ =>
    iterate 7 apply World.Stored.poke
    exact poke_stored ..

theorem World.Stored.receiveLoop (h : w.Stored b) (point : Addr) (rs : List RxMbuf)
    (offset : Nat) : (receiveLoop point rs offset w).Stored b := by
  induction rs generalizing offset w with
  | nil => exact h
  | cons r rs ih => exact ih ((h.insert64 ..).insert64 ..) _

/-- The receive loop stores to every byte of its slice of the buffer. -/
theorem receiveLoop_stored (point : Addr) (rs : List RxMbuf) (offset : Nat) (w : World) {i : Nat}
    (hi : i < 16 * rs.length) :
    (receiveLoop point rs offset w).Stored (cell point (offset + i)) := by
  induction rs generalizing offset i w with
  | nil => simp at hi
  | cons r rs ih =>
    rw [List.length_cons] at hi
    -- the byte is in the mbuf pointer, in the header pointer, or in a later pair
    rcases Nat.lt_or_ge i 8 with hfst | hge
    · exact ((insert64_stored point offset r.mbuf w hfst).insert64 ..).receiveLoop ..
    · rcases Nat.lt_or_ge i 16 with hsnd | hrest
      · have hbyte := insert64_stored point (offset + 8) r.ip (insert64 point offset r.mbuf w)
          (show i - 8 < 8 by omega)
        rw [show offset + 8 + (i - 8) = offset + i by omega] at hbyte
        exact hbyte.receiveLoop ..
      · have hbyte := ih (offset + 16)
          (insert64 point (offset + 8) r.ip (insert64 point offset r.mbuf w))
          (show i - 16 < 16 * rs.length by omega)
        rw [show offset + 16 + (i - 16) = offset + i by omega] at hbyte
        exact hbyte

end stored

/-! ## Section 2: A burst in range -/

namespace DpdkJava

/-- The last argument of `rte_eth_rx_burst` is an `uint16_t`, so the call in
    `nat_receive_burst` narrows the `int` that was configured. The driver
    delivers at most as many packets. -/
def NativeVars.nb_pkts (v : NativeVars) : BitVec 16 := v.get_burst.setWidth 16

theorem NativeVars.nb_pkts_toNat {v : NativeVars} (h : 0 < v.get_burst.toInt) :
    v.nb_pkts.toNat = v.get_burst.toInt.toNat % 65536 := by
  have hlt : 2 * v.get_burst.toNat < 2 ^ 32 := BitVec.toInt_pos_iff.mp h.le
  rw [nb_pkts, BitVec.toNat_setWidth, BitVec.toInt_eq_toNat_of_lt hlt, Int.toNat_natCast]

/-- Every store of one `nat_receive_burst` call is in range: the indices of
    `pkts_burst`, and the bytes behind the poller's pointer. -/
def InRange (rp : ReceivePoller) (delivered : List RxMbuf) (w : World) : Prop :=
  (∀ i ∈ (nat_receive_burst rp.mem_pointer delivered w.unlogged).burstSlots, i < 512) ∧
  ∀ acc ∈ (nat_receive_burst rp.mem_pointer delivered w.unlogged).heap.log,
    acc.kind = .store → acc.region ⊆ (⟨rp.mem_pointer, rp.memory_size.toNat⟩ : Region 64)

/-- A new poller after a sequence of `setGetSize` calls. -/
def pollerAfter (mem_pointer : Addr) (sizes : List JInt) : ReceivePoller :=
  sizes.foldl ReceivePoller.setGetSize (ReceivePoller.new mem_pointer)

/-- The setter changes neither the buffer nor its size. -/
theorem pollerAfter_buffer (mem_pointer : Addr) (sizes : List JInt) :
    (pollerAfter mem_pointer sizes).mem_pointer = mem_pointer ∧
    (pollerAfter mem_pointer sizes).memory_size.toNat = 528 := by
  -- `setGetSize` changes the size asked for, not the buffer
  have hset : ∀ rp : ReceivePoller,
      (sizes.foldl ReceivePoller.setGetSize rp).mem_pointer = rp.mem_pointer ∧
      (sizes.foldl ReceivePoller.setGetSize rp).memory_size = rp.memory_size := by
    induction sizes with
    | nil => exact fun rp => ⟨rfl, rfl⟩
    | cons size sizes ih => exact fun rp => ih (rp.setGetSize size)
  obtain ⟨hpointer, hsize⟩ := hset (ReceivePoller.new mem_pointer)
  refine ⟨hpointer, ?_⟩
  rw [pollerAfter, hsize]
  rfl

section burst
variable (rp : ReceivePoller) (delivered : List RxMbuf) (w : World)

/-- Whatever the count, the slots stored to are the first ones. -/
theorem unlogged_burstSlots :
    (nat_receive_burst rp.mem_pointer delivered w.unlogged).burstSlots =
      List.range delivered.length := by
  have hinsert : World.Confined (fun _ _ => True) (rte_eth_rx_burst delivered w.unlogged)
      (insert16 rp.mem_pointer 0 (BitVec.ofNat 16 delivered.length)
        (rte_eth_rx_burst delivered w.unlogged)) :=
    insert16_confined _ _ (fun _ _ => trivial)
  have hslots : (rte_eth_rx_burst delivered w.unlogged).burstSlots =
      List.range delivered.length := List.append_nil _
  -- the count is 16 bits wide: after a wrap the loop copies fewer pairs than the NIC stored
  have htake := List.length_take_le (BitVec.ofNat 16 delivered.length).toNat delivered
  have hcount := (BitVec.ofNat 16 delivered.length).isLt
  unfold nat_receive_burst
  by_cases hpos : (BitVec.ofNat 16 delivered.length).toNat > 0
  · simp only [if_pos hpos]
    have hloop : World.Confined (fun _ _ => True) _ _ :=
      receiveLoop_confined rp.mem_pointer
        (delivered.take (BitVec.ofNat 16 delivered.length).toNat) 2
        (insert16 rp.mem_pointer 0 (BitVec.ofNat 16 delivered.length)
          (rte_eth_rx_burst delivered w.unlogged)) (fun _ _ => trivial) (by omega)
    rw [hloop.burstSlots, hinsert.burstSlots, hslots]
  · simp only [if_neg hpos]
    rw [hinsert.burstSlots, hslots]

/-- A burst whose last byte is inside the allocated memory is in range. -/
theorem inRange_of_le (hsize : 2 + 16 * delivered.length ≤ rp.memory_size.toNat)
    (hslots : delivered.length ≤ 512) : InRange rp delivered w := by
  have hcount : delivered.length < 2 ^ 16 := by omega
  constructor
  · rw [unlogged_burstSlots]
    intro i hi
    have := List.mem_range.mp hi
    omega
  · -- stores are allowed in the buffer only, loads everywhere
    have hconf : World.Confined (fun kind b => kind = .store →
        b ∈ (⟨rp.mem_pointer, rp.memory_size.toNat⟩ : Region 64))
        (rte_eth_rx_burst delivered w.unlogged)
        (nat_receive_burst rp.mem_pointer delivered w.unlogged) :=
      nat_receive_burst_confined rp.mem_pointer delivered w.unlogged hcount
        (fun b hb _ => Nat.lt_of_lt_of_le hb hsize)
    have hsafe := hconf.safe (fun acc hacc => absurd hacc List.not_mem_nil)
    intro acc hacc hkind b hb
    exact hsafe acc hacc b hb hkind

/-- A burst in range ends inside the allocated memory. -/
theorem le_of_inRange (h : InRange rp delivered w) (hcount : delivered.length < 2 ^ 16)
    (hne : delivered ≠ []) : 2 + 16 * delivered.length ≤ rp.memory_size.toNat := by
  by_contra hlt
  have hlen : 0 < delivered.length := List.length_pos_iff.mpr hne
  -- the last byte of the burst is stored to
  have hlast := receiveLoop_stored rp.mem_pointer delivered 2
    (insert16 rp.mem_pointer 0 (BitVec.ofNat 16 delivered.length)
      (rte_eth_rx_burst delivered w.unlogged))
    (show 16 * delivered.length - 1 < 16 * delivered.length by omega)
  rw [← nat_receive_burst_eq rp.mem_pointer delivered w.unlogged hcount] at hlast
  obtain ⟨acc, hacc, hkind, hb⟩ := hlast
  have hin := Region.mem_def.mp (h.2 acc hacc hkind _ hb)
  have hdist : (cell rp.mem_pointer (2 + (16 * delivered.length - 1)) - rp.mem_pointer).toNat =
      2 + (16 * delivered.length - 1) := toNat_add_ofNat_sub _ (by omega)
  rw [hdist] at hin
  have hin' : 2 + (16 * delivered.length - 1) < rp.memory_size.toNat := hin
  omega

end burst

/-- For a poller with the default buffer, the limit is 32 packets. -/
theorem inRange_pollerAfter_iff (mem_pointer : Addr) (sizes : List JInt)
    (delivered : List RxMbuf) (w : World) :
    InRange (pollerAfter mem_pointer sizes) delivered w ↔ delivered.length ≤ 32 := by
  obtain ⟨-, hsize⟩ := pollerAfter_buffer mem_pointer sizes
  constructor
  · intro h
    rcases Nat.lt_or_ge delivered.length (2 ^ 16) with hcount | hcount
    · rcases eq_or_ne delivered [] with hnil | hne
      · rw [hnil]
        exact Nat.zero_le _
      · have hle := le_of_inRange _ delivered w h hcount hne
        omega
    · -- a burst beyond the 16-bit count overruns the local array first
      refine absurd (h.1 512 ?_) (by decide)
      rw [unlogged_burstSlots, List.mem_range]
      omega
  · intro h
    exact inRange_of_le _ delivered w (by omega) (by omega)

/-- **Main**: for every configuration that is sent with a positive `rxburst`,
    every sequence of `setGetSize` calls and every burst that the driver may
    deliver, the stores are in range exactly when the burst has at most 32
    packets. So no burst goes wrong exactly when the low 16 bits of `rxburst`
    are a number of at most 32. -/
theorem inRange_iff (config_map : ConfigMap) (vars vars' : NativeVars)
    (hsent : sendDPDKInformation config_map vars = .ok vars') (hpos : 0 < vars'.get_burst.toInt)
    (mem_pointer : Addr) (sizes : List JInt) (w : World) :
    (∀ delivered : List RxMbuf, delivered.length ≤ vars'.nb_pkts.toNat →
      (InRange (pollerAfter mem_pointer sizes) delivered w ↔ delivered.length ≤ 32)) ∧
    ((∀ delivered : List RxMbuf, delivered.length ≤ vars'.nb_pkts.toNat →
      InRange (pollerAfter mem_pointer sizes) delivered w) ↔
        ∃ rxburst, (config_map .RX_BURST).bind parseInt = some rxburst ∧
          rxburst.toInt % 65536 ≤ 32) := by
  have hburst := ((sendDPDKInformation_ok_iff config_map vars vars').mp hsent).get_burst
  have hnarrow := NativeVars.nb_pkts_toNat hpos
  refine ⟨fun delivered _ => inRange_pollerAfter_iff mem_pointer sizes delivered w, ?_⟩
  constructor
  · -- the largest burst that the configuration allows
    intro hall
    refine ⟨vars'.get_burst, hburst, ?_⟩
    have hlargest := hall (List.replicate vars'.nb_pkts.toNat ⟨0, 0⟩)
      (le_of_eq List.length_replicate)
    rw [inRange_pollerAfter_iff, List.length_replicate] at hlargest
    omega
  · rintro ⟨rxburst, hrx, hle⟩ delivered hlen
    rw [hburst, Option.some.injEq] at hrx
    rw [← hrx] at hle
    apply (inRange_pollerAfter_iff mem_pointer sizes delivered w).mpr
    omega

/-- With the firewall's configuration, a burst of two packets is in range. -/
theorem inRange_two_packets :
    InRange (pollerAfter 0x10000 [64]) [⟨0x1000, 0x1080⟩, ⟨0x2000, 0x2080⟩]
      (World.quiet fun _ => 0) := by
  have hlen : 2 ≤ firewallVars.nb_pkts.toNat := by decide
  exact ((inRange_iff firewallConfig NativeVars.initial firewallVars firewallConfig_sent
    (by decide) 0x10000 [64] (World.quiet fun _ => 0)).1
      [⟨0x1000, 0x1080⟩, ⟨0x2000, 0x2080⟩] hlen).mpr (by decide)

/-- With the firewall's configuration the driver is asked for up to 128
    packets, and a burst of 33 is stored beyond the allocated memory. -/
theorem inRange_fails_for_33_packets :
    sendDPDKInformation firewallConfig NativeVars.initial = .ok firewallVars ∧
    firewallVars.nb_pkts = 128 ∧
    ¬ InRange (pollerAfter 0x10000 []) (List.replicate 33 ⟨0x1000, 0x1080⟩)
      (World.quiet fun _ => 0) := by
  refine ⟨firewallConfig_sent, rfl, ?_⟩
  rw [inRange_pollerAfter_iff, List.length_replicate]
  decide

end DpdkJava

end PacketPro
