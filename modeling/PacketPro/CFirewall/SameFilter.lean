import PacketPro.CFirewall.Main
import PacketPro.DpdkJava.Firewall

/-! # The C and the Java Firewall Compared

    Both programs are given the same set of addresses and the same frame. The
    C program looks up the destination address, converted to host order; the
    Java program looks up the source address as a little-endian number, which
    is the number of the address read back to front. So the verdicts agree
    exactly when these two lookups do.
-/

open ByteMem

namespace PacketPro.CFirewall

/-! ## Section 1: One blacklist for both programs -/

/-- The array holds the numbers of the addresses in `B`, in any order. -/
def ArrayOf (blacklist : List (BitVec 32)) (B : Finset Quad) : Prop :=
  ∀ x, x ∈ blacklist ↔ ∃ q ∈ B, x = BitVec.ofNat 32 q.value

/-- The lines of the file are dotted quads of addresses in `B`, and every
    address in `B` has a line. -/
structure FileOf (lines : List JString) (B : Finset Quad) : Prop where
  quads : ∀ line ∈ lines, ∃ q ∈ B, Denotes line q
  complete : ∀ q ∈ B, Lists lines q

theorem FileOf.denotes {lines : List JString} {B : Finset Quad} (h : FileOf lines B) :
    ∀ line ∈ lines, ∃ q, Denotes line q := by
  intro line hline
  obtain ⟨q, -, hq⟩ := h.quads line hline
  exact ⟨q, hq⟩

theorem FileOf.lists_iff {lines : List JString} {B : Finset Quad} (h : FileOf lines B) (q : Quad) :
    Lists lines q ↔ q ∈ B := by
  constructor
  · rintro ⟨line, hline, hq⟩
    obtain ⟨q', hq', hline'⟩ := h.quads line hline
    rw [hq.unique hline']
    exact hq'
  · exact h.complete q

/-- Where the IP header of a frame starts. -/
def RxFrame.iphdr (f : RxFrame) : Addr := cell f.data 14

/-- The source address of a frame, in network order. -/
def RxFrame.srcQuad (f : RxFrame) (mem : Memory 64) : Quad :=
  quadAt mem (cell f.iphdr SRC_ADDR_OFFSET)

/-- The destination address of a frame, in network order. -/
def RxFrame.dstQuad (f : RxFrame) (mem : Memory 64) : Quad := quadAt mem (cell f.iphdr DST_ADDR)

/-- The Ethernet header is followed by an IPv4 header. -/
structure RxFrame.IsIpv4 (f : RxFrame) (mem : Memory 64) : Prop where
  length : 14 + 20 ≤ f.data_len.toNat
  version : (mem f.iphdr).toNat / 16 = 4

/-- The packet of the Java program is the frame of the C program: the same 20
    bytes of IP header, wherever each program has them. -/
def SameHeader (f : RxFrame) (mem : Memory 64) (p : Packet) (mem' : Memory 64) : Prop :=
  ∀ i < 20, mem' (cell p.packet_pointer i) = mem (cell f.iphdr i)

theorem quadAt_congr {mem mem' : Memory 64} {a a' : Addr} {offset : Nat}
    (h : ∀ i < 20, mem' (cell a' i) = mem (cell a i)) (hoffset : offset + 4 ≤ 20) :
    quadAt mem' (cell a' offset) = quadAt mem (cell a offset) := by
  have hbyte : ∀ k < 4, mem' (cell (cell a' offset) k) = mem (cell (cell a offset) k) := by
    intro k hk
    have hcell : ∀ b : Addr, cell (cell b offset) k = cell b (offset + k) :=
      fun b => add_ofNat_add_ofNat b offset k
    rw [hcell, hcell]
    exact h (offset + k) (by omega)
  have hfirst := hbyte 0 (by decide)
  rw [cell_zero, cell_zero] at hfirst
  rw [quadAt, quadAt, hfirst, hbyte 1 (by decide), hbyte 2 (by decide), hbyte 3 (by decide)]

/-- Both programs see the same source address and version. -/
theorem SameHeader.srcQuad_eq {f : RxFrame} {mem mem' : Memory 64} {p : Packet}
    (h : SameHeader f mem p mem') : p.srcQuad mem' = f.srcQuad mem :=
  quadAt_congr h (by decide)

theorem SameHeader.versionNibble_eq {f : RxFrame} {mem mem' : Memory 64} {p : Packet}
    (h : SameHeader f mem p mem') : p.versionNibble mem' = (mem f.iphdr).toNat / 16 := by
  have hfirst := h 0 (by decide)
  rw [cell_zero, cell_zero] at hfirst
  rw [Packet.versionNibble, hfirst]

/-! ## Section 2: The destination address -/

theorem append_toNat {n k : Nat} (x : BitVec n) (y : BitVec k) :
    (x ++ y).toNat = x.toNat * 2 ^ k + y.toNat := by
  rw [BitVec.toNat_append, ← Nat.shiftLeft_add_eq_or_of_lt y.isLt, Nat.shiftLeft_eq]

/-- The base-256 digits of the number of an address read back to front. -/
theorem reverse_value_bytes (q : Quad) :
    q.reverse.value / 2 ^ 0 % 2 ^ 8 = q.a.toNat ∧ q.reverse.value / 2 ^ 8 % 2 ^ 8 = q.b.toNat ∧
    q.reverse.value / 2 ^ 16 % 2 ^ 8 = q.c.toNat ∧
    q.reverse.value / 2 ^ 24 % 2 ^ 8 = q.d.toNat := by
  have ha := q.a.isLt
  have hb := q.b.isLt
  have hc := q.c.isLt
  have hd := q.d.isLt
  have hvalue : q.reverse.value =
      q.d.toNat * 2 ^ 24 + q.c.toNat * 2 ^ 16 + q.b.toNat * 2 ^ 8 + q.a.toNat := rfl
  refine ⟨?_, ?_, ?_, ?_⟩ <;> omega

/-- The swap moves each base-256 digit to the opposite place. -/
theorem rte_be_to_cpu_32_toNat (x : BitVec 32) : (rte_be_to_cpu_32 x).toNat =
    ((x.toNat / 2 ^ 0 % 2 ^ 8 * 2 ^ 8 + x.toNat / 2 ^ 8 % 2 ^ 8) * 2 ^ 8 +
      x.toNat / 2 ^ 16 % 2 ^ 8) * 2 ^ 8 + x.toNat / 2 ^ 24 % 2 ^ 8 := by
  unfold rte_be_to_cpu_32
  rw [append_toNat, append_toNat, append_toNat]
  simp only [BitVec.extractLsb'_toNat, Nat.shiftRight_eq_div_pow]

/-- Swapping the bytes of a little-endian number reads it back to front. -/
theorem rte_be_to_cpu_32_reverse (q : Quad) :
    rte_be_to_cpu_32 (BitVec.ofNat 32 q.reverse.value) = BitVec.ofNat 32 q.value := by
  obtain ⟨ha, hb, hc, hd⟩ := reverse_value_bytes q
  have hvalue : q.value =
      q.a.toNat * 2 ^ 24 + q.b.toNat * 2 ^ 16 + q.c.toNat * 2 ^ 8 + q.d.toNat := rfl
  apply BitVec.eq_of_toNat_eq
  rw [rte_be_to_cpu_32_toNat, BitVec.toNat_ofNat, BitVec.toNat_ofNat,
    Nat.mod_eq_of_lt q.reverse.value_lt, Nat.mod_eq_of_lt q.value_lt, ha, hb, hc, hd]
  omega

/-- The C program computes the number of the destination address. -/
theorem destAddr_eq (mem : Memory 64) (iphdr : Addr) :
    destAddr mem iphdr = BitVec.ofNat 32 (quadAt mem (cell iphdr DST_ADDR)).value := by
  rw [destAddr, loadLE_eq_reverse_value, rte_be_to_cpu_32_reverse]

theorem ofNat32_value_injective {q q' : Quad}
    (h : BitVec.ofNat 32 q.value = BitVec.ofNat 32 q'.value) : q = q' := by
  have htoNat := congrArg BitVec.toNat h
  rw [BitVec.toNat_ofNat, BitVec.toNat_ofNat, Nat.mod_eq_of_lt q.value_lt,
    Nat.mod_eq_of_lt q'.value_lt] at htoNat
  exact Quad.value_injective htoNat

/-- A frame passes the C filter exactly when its destination is not in `B`. -/
theorem RxFrame.passes_iff {blacklist : List (BitVec 32)} {B : Finset Quad}
    (harray : ArrayOf blacklist B) (f : RxFrame) (mem : Memory 64) :
    f.passes blacklist mem = true ↔ f.dstQuad mem ∉ B := by
  rw [RxFrame.passes, decide_eq_true_iff, destAddr_eq, harray]
  constructor
  · intro h hmem
    exact h ⟨f.dstQuad mem, hmem, rfl⟩
  · rintro h ⟨q, hq, heq⟩
    have hsame : f.dstQuad mem = q := ofNat32_value_injective heq
    exact h (hsame ▸ hq)

/-! ## Section 3: The verdicts -/

/-- `main_loop` passes the packet to `send_packet`. -/
def Sends (blacklist : List (BitVec 32)) (f : RxFrame) (st : State) : Prop :=
  (inspect blacklist f.mbuf st).map State.calls = some (st.calls ++ [.send_packet f.mbuf])

theorem sends_iff {blacklist : List (BitVec 32)} {B : Finset Quad} (harray : ArrayOf blacklist B)
    {f : RxFrame} {st : State} (hfields : st.mbufs f.mbuf = f.toMbufFields)
    (hheader : f.HasHeader) : Sends blacklist f st ↔ f.dstQuad st.mem ∉ B := by
  rw [← RxFrame.passes_iff harray, Sends, inspect_eq blacklist f st hfields, if_pos hheader]
  by_cases hpass : f.passes blacklist st.mem = true
  · simp [hpass]
  · simp [hpass]

/-- `FirewallProcessor.inspect` passes the packet to `sendPacket`. -/
def JavaSends (blacklist : Finset JLong) (p : Packet) (s : DpdkJava.Processor) (w : World) : Prop :=
  (DpdkJava.FirewallProcessor.inspect blacklist p s w).2.1.calls = s.calls ++ [.sendPacket p]

theorem javaSends_iff {lines : List JString} {B : Finset Quad} (hfile : FileOf lines B)
    {blacklist : Finset JLong} (hread : readBlacklist (some lines) = some blacklist) {p : Packet}
    (s : DpdkJava.Processor) {w : World} (hversion : p.versionNibble w.mem = 4) :
    JavaSends blacklist p s w ↔ (p.srcQuad w.mem).reverse ∉ B := by
  rw [← hfile.lists_iff, ← Packet.passes_iff_not_lists_reverse hfile.denotes hread hversion,
    JavaSends, DpdkJava.FirewallProcessor.inspect_calls]
  by_cases hpass : p.passes blacklist w.mem = true
  · simp [hpass]
  · simp [hpass]

/-- **Main**: for every set of addresses, given to the two programs as array
    and as file, and every IPv4 frame that both have received, the verdicts
    are the same exactly when the destination address is in the set just in
    case the source address read back to front is. -/
theorem sameVerdict_iff (B : Finset Quad) (array : List (BitVec 32)) (harray : ArrayOf array B)
    (lines : List JString) (hfile : FileOf lines B) :
    ∃ blacklist, readBlacklist (some lines) = some blacklist ∧
      ∀ (f : RxFrame) (st : State) (p : Packet) (s : DpdkJava.Processor) (w : World),
        st.mbufs f.mbuf = f.toMbufFields → f.IsIpv4 st.mem → SameHeader f st.mem p w.mem →
        ((Sends array f st ↔ JavaSends blacklist p s w) ↔
          (f.dstQuad st.mem ∈ B ↔ (f.srcQuad st.mem).reverse ∈ B)) := by
  obtain ⟨blacklist, hread⟩ := readLines_isSome hfile.denotes ∅
  refine ⟨blacklist, hread, ?_⟩
  intro f st p s w hfields hipv4 hsame
  have hheader : f.HasHeader := Nat.le_trans (by decide) hipv4.length
  have hversion : p.versionNibble w.mem = 4 := hsame.versionNibble_eq.trans hipv4.version
  rw [sends_iff harray hfields hheader, javaSends_iff hfile hread s hversion, hsame.srcQuad_eq,
    not_iff_not]

/-! ### Concrete frames -/

/-- A frame whose IPv4 header starts at `0x200E`. -/
def sampleFrame : RxFrame := ⟨⟨0x2000, 60, 60⟩, 0x1000⟩

/-- The same packet for the Java program. -/
def samplePacket : Packet := RxMbuf.packet ⟨0x1000, 0x2000⟩

/-- Memory with the given source and destination addresses in that header. -/
def frameMemory (source destination : Quad) : Memory 64 :=
  storeLE (storeLE (storeLE (fun _ => 0) 0x200E 1 0x45) 0x201A 4 source.reverse.value)
    0x201E 4 destination.reverse.value

/-- The C program when it has received the frame. -/
def frameState (source destination : Quad) : State :=
  State.boot (frameMemory source destination) (fun _ => sampleFrame.toMbufFields)
    (fun _ n => Fin.last n)

/-- The Java program when it has received the frame. -/
def frameWorld (source destination : Quad) : World := World.quiet (frameMemory source destination)

def frameProcessor : DpdkJava.Processor :=
  (DpdkJava.Processor.new 0x100 0x300 0x500 (World.quiet fun _ => 0)).1

theorem sample_sameHeader (source destination : Quad) :
    SameHeader sampleFrame (frameState source destination).mem samplePacket
      (frameWorld source destination).mem :=
  fun _ _ => rfl

theorem sample_arrayOf : ArrayOf [0x0A000001] {⟨10, 0, 0, 1⟩} := by
  intro x
  rw [List.mem_singleton]
  constructor
  · rintro rfl
    exact ⟨⟨10, 0, 0, 1⟩, Finset.mem_singleton_self _, by decide⟩
  · rintro ⟨q, hq, rfl⟩
    rw [Finset.mem_singleton.mp hq]
    decide

theorem sample_fileOf : FileOf [DpdkJava.FirewallProcessor.sampleLine] {⟨10, 0, 0, 1⟩} := by
  constructor
  · intro line hline
    rw [List.mem_singleton.mp hline]
    exact ⟨_, Finset.mem_singleton_self _, DpdkJava.FirewallProcessor.sampleLine_denotes⟩
  · intro q hq
    rw [Finset.mem_singleton.mp hq]
    exact ⟨_, List.mem_singleton_self _, DpdkJava.FirewallProcessor.sampleLine_denotes⟩

/-- With 10.0.0.1 blacklisted, both programs decide alike on a frame from
    7.7.7.7 to 8.8.8.8. -/
theorem sameVerdict_unlisted_frame :
    ∃ blacklist, readBlacklist (some [DpdkJava.FirewallProcessor.sampleLine]) = some blacklist ∧
      (Sends [0x0A000001] sampleFrame (frameState ⟨7, 7, 7, 7⟩ ⟨8, 8, 8, 8⟩) ↔
        JavaSends blacklist samplePacket frameProcessor
          (frameWorld ⟨7, 7, 7, 7⟩ ⟨8, 8, 8, 8⟩)) := by
  obtain ⟨blacklist, hread, hiff⟩ := sameVerdict_iff _ _ sample_arrayOf _ sample_fileOf
  refine ⟨blacklist, hread, ?_⟩
  exact (hiff sampleFrame (frameState ⟨7, 7, 7, 7⟩ ⟨8, 8, 8, 8⟩) samplePacket frameProcessor _ rfl
    ⟨by decide, by decide⟩ (sample_sameHeader _ _)).mpr (by decide)

/-- With 10.0.0.1 blacklisted, a frame from 7.7.7.7 to 10.0.0.1 is dropped by
    the C program and sent by the Java program. -/
theorem listed_destination_differs :
    ∃ blacklist, readBlacklist (some [DpdkJava.FirewallProcessor.sampleLine]) = some blacklist ∧
      SameHeader sampleFrame (frameState ⟨7, 7, 7, 7⟩ ⟨10, 0, 0, 1⟩).mem samplePacket
        (frameWorld ⟨7, 7, 7, 7⟩ ⟨10, 0, 0, 1⟩).mem ∧
      ¬ Sends [0x0A000001] sampleFrame (frameState ⟨7, 7, 7, 7⟩ ⟨10, 0, 0, 1⟩) ∧
      JavaSends blacklist samplePacket frameProcessor
        (frameWorld ⟨7, 7, 7, 7⟩ ⟨10, 0, 0, 1⟩) := by
  obtain ⟨blacklist, hread⟩ := readLines_isSome sample_fileOf.denotes ∅
  refine ⟨blacklist, hread, sample_sameHeader _ _, ?_, ?_⟩
  · rw [sends_iff sample_arrayOf rfl (by decide)]
    decide
  · rw [javaSends_iff sample_fileOf hread _ (by decide)]
    decide

end PacketPro.CFirewall
