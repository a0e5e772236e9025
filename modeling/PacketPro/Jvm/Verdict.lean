import PacketPro.Jvm.Packet
import Mathlib.Data.Finset.Basic

/-! # `FirewallProcessor.inspect`: The Checks

    Both versions of the framework have a `FirewallProcessor` with the same
    checks: the packet is sent when its version nibble is 4 and its source
    address is not in the blacklist, and freed otherwise. `verdict` models the
    checks with the accesses they make; `passes` is what they compute, as a
    function of packet memory.
-/

open ByteMem

namespace PacketPro

namespace FirewallProcessor

/-- The checks of `inspect`: whether the packet is to be sent. -/
def verdict (blacklist : Finset JLong) (p : Packet) (ua : UnsafeAccess) (w : World) :
    Bool × UnsafeAccess × World :=
  let (version, ua, w) := p.whichIP ua w
  if version = 4 then
    let (src, ua, w) := Ipv4Packet.getSrcAddr p ua w
    (decide (src ∉ blacklist), ua, w)
  else if version = 6 then
    (false, ua, w)
  else
    (false, ua, w)

end FirewallProcessor

/-- The version nibble of the header. -/
def Packet.versionNibble (p : Packet) (m : Memory 64) : Nat := (m p.packet_pointer).toNat / 16

/-- The source address as `getSrcAddr` returns it. -/
def Packet.srcAddr (p : Packet) (m : Memory 64) : JLong :=
  BitVec.ofNat 64 (loadLE m (cell p.packet_pointer SRC_ADDR_OFFSET) 4)

/-- The packet is IPv4 and its source address is not in the blacklist. -/
def Packet.passes (blacklist : Finset JLong) (m : Memory 64) (p : Packet) : Bool :=
  decide (p.versionNibble m = 4 ∧ p.srcAddr m ∉ blacklist)

/-- The filter depends on the header only. -/
theorem Packet.passes_congr (blacklist : Finset JLong) (p : Packet) {m m' : Memory 64}
    (h : ∀ b, b ∈ p.header → m b = m' b) : p.passes blacklist m = p.passes blacklist m' := by
  have hversion : p.versionNibble m = p.versionNibble m' := by
    have hfirst := p.field_subset 0 1 (by decide)
    rw [cell_zero] at hfirst
    rw [Packet.versionNibble, Packet.versionNibble, h p.packet_pointer]
    apply hfirst
    rw [Region.mem_def, BitVec.sub_self]
    exact Nat.zero_lt_one
  have hsrc : p.srcAddr m = p.srcAddr m' := by
    have hload := loadLE_congr (by decide) fun b hb =>
      h b (p.field_subset SRC_ADDR_OFFSET 4 (by decide) b hb)
    rw [Packet.srcAddr, Packet.srcAddr, hload]
  unfold Packet.passes
  rw [hversion, hsrc]

section spec
variable (blacklist : Finset JLong) (p : Packet) (ua : UnsafeAccess) (w : World)

theorem getSrcAddr_fst : (Ipv4Packet.getSrcAddr p ua w).1 = p.srcAddr w.mem := by
  have hlt := loadLE_lt w.mem (cell p.packet_pointer SRC_ADDR_OFFSET) 4
  apply BitVec.eq_of_toNat_eq
  rw [Ipv4Packet.getSrcAddr, UnsafeAccess.getInt_toNat, Packet.seek_address, Packet.srcAddr,
    BitVec.toNat_ofNat]
  omega

/-- The arithmetic shift of a byte gives its upper nibble. -/
theorem sshiftRight_four (b : BitVec 8) :
    ((signToUnsignByte b).sshiftRight 4).toNat = b.toNat / 16 := by
  have hb := b.isLt
  have hmsb : (signToUnsignByte b).msb = false := by
    rw [signToUnsignByte_eq, BitVec.msb_eq_decide, BitVec.toNat_setWidth]
    simp only [decide_eq_false_iff_not]
    omega
  rw [BitVec.sshiftRight_eq_of_msb_false hmsb, signToUnsignByte_eq, BitVec.toNat_ushiftRight,
    BitVec.toNat_setWidth, Nat.shiftRight_eq_div_pow]
  omega

theorem whichIP_eq_four_iff : (p.whichIP ua w).1 = 4 ↔ p.versionNibble w.mem = 4 := by
  have hbyte : BitVec.ofNat 8 (loadLE w.mem (cell p.packet_pointer 0) 1) =
      w.mem p.packet_pointer := by
    rw [cell_zero, loadLE]
    simp
  have hnibble := sshiftRight_four (w.mem p.packet_pointer)
  rw [p.whichIP_fst, hbyte, Packet.versionNibble, ← hnibble]
  simp only
  constructor
  · intro h
    split at h
    · rw [h]
      rfl
    · exact absurd h (by decide)
  · intro h
    have h4 : (signToUnsignByte (w.mem p.packet_pointer)).sshiftRight 4 = 4 :=
      BitVec.eq_of_toNat_eq h
    rw [if_pos (Or.inl h4), h4]

namespace FirewallProcessor

/-- **The checks compute `passes`**. -/
theorem verdict_fst : (verdict blacklist p ua w).1 = p.passes blacklist w.mem := by
  have hversion := whichIP_eq_four_iff p ua w
  unfold verdict Packet.passes
  by_cases h4 : (p.whichIP ua w).1 = 4
  · have hmem : (p.whichIP ua w).2.2.mem = w.mem := rfl
    simp only [h4, if_pos, getSrcAddr_fst, hmem, hversion.mp h4, true_and]
  · have hno : ¬ p.versionNibble w.mem = 4 := fun h => h4 (hversion.mpr h)
    simp only [if_neg h4, ite_self, hno, false_and, decide_false]

/-- Every outcome of the checks: one or two header reads, and nothing else. -/
theorem verdict_confined {allowed : AccessKind → Addr → Prop}
    (h : ∀ b, b ∈ p.header → allowed .load b) :
    World.Confined allowed w (verdict blacklist p ua w).2.2 := by
  have hbyte : World.Confined allowed w (p.whichIP ua w).2.2 := by
    apply UnsafeAccess.getByte_confined
    intro b hb
    rw [UnsafeAccess.setCurrentPointer_address, ← cell_zero p.packet_pointer] at hb
    exact h b (p.field_subset 0 1 (by decide) b hb)
  unfold verdict
  -- only an IPv4 packet is read any further
  by_cases h4 : (p.whichIP ua w).1 = 4
  · simp only [if_pos h4]
    refine hbyte.trans (UnsafeAccess.getInt_confined _ _ ?_)
    intro b hb
    rw [Packet.seek_address] at hb
    exact h b (p.field_subset SRC_ADDR_OFFSET 4 (by decide) b hb)
  · simp only [if_neg h4, ite_self]
    exact hbyte

@[simp] theorem verdict_mem : (verdict blacklist p ua w).2.2.mem = w.mem := by
  unfold verdict
  by_cases h4 : (p.whichIP ua w).1 = 4
  · simp only [if_pos h4]
    rfl
  · simp only [if_neg h4, ite_self]
    rfl

end FirewallProcessor

end spec

end PacketPro
