import PacketPro.Jvm.HeaderFields

/-! # Range Warnings of the Setters

    A value that does not fit its unsigned field is written all the same, and
    `checkBounds` prints a stack trace. The warning is exact when it appears
    for the arguments that the getter then fails to return, and for no others.

    The setters that take a number are exact. The address setters of
    `Ipv6Packet` hand each array element to `putByte(int)`, which sign-extends
    it: an element of `0x80` or above is reported although it is stored as it
    is.
-/

open ByteMem

namespace PacketPro

/-! ## Section 1: Setters, getters, exactness -/

/-- A setter with its argument, its getter, and the argument as the getter
    would return it. -/
inductive Ipv4Setter : Ipv4Call → Ipv4Call → CallResult → Prop
  | versionIhl (v : JInt) : Ipv4Setter (.setVersionIhl v) .getVersionIhl (.int v)
  | typeOfService (v : JInt) : Ipv4Setter (.setTypeOfService v) .getTypeOfService (.int v)
  | totalLength (v : JInt) : Ipv4Setter (.setTotalLength v) .getLength (.int v)
  | packetId (v : JInt) : Ipv4Setter (.setPacketID v) .getPacketId (.int v)
  | fragmentOffset (v : JInt) : Ipv4Setter (.setFragmentOffset v) .getFragmentOffset (.int v)
  | timeToLive (v : JInt) : Ipv4Setter (.setTimeToLive v) .getTimeToLive (.int v)
  | nextProtoId (v : JInt) : Ipv4Setter (.setNextProtoID v) .getNextProtoId (.int v)
  | hdrChecksum (v : JInt) : Ipv4Setter (.setHdrChecksum v) .getHdrChecksum (.int v)
  | srcAddr (v : JLong) : Ipv4Setter (.setSrcAddr v) .getSrcAddr (.long v)
  | dstAddr (v : JLong) : Ipv4Setter (.setDstAddr v) .getDst_Addr (.long v)

inductive Ipv6Setter : Ipv6Call → Ipv6Call → Ipv6Result → Prop
  | vtcFlow (v : JLong) : Ipv6Setter (.setVtcFlow v) .getVtcFlow (.long v)
  | payloadLength (v : JInt) : Ipv6Setter (.setPayloadLength v) .getLength (.int v)
  | proto (v : JInt) : Ipv6Setter (.setProto v) .getProto (.int v)
  | hopLimits (v : JInt) : Ipv6Setter (.setHopLimits v) .getHopLimits (.int v)
  | srcAddr (addr : List JByte) (h : addr.length = 16) :
    Ipv6Setter (.setSrcAddr addr) .getSrcAddr (.bytes addr)
  | dstAddr (addr : List JByte) (h : addr.length = 16) :
    Ipv6Setter (.setDstAddr addr) .getDstAddr (.bytes addr)

/-- The setter reports its argument if and only if the getter, called next,
    does not return it. -/
def WarnsExactly {C R : Type} (exec : C → Packet → UnsafeAccess → World → R × UnsafeAccess × World)
    (set get : C) (arg : R) (p : Packet) (ua : UnsafeAccess) (w : World) : Prop :=
  let (_, ua', w') := exec set p ua w
  w.reports < w'.reports ↔ (exec get p ua' w').1 ≠ arg

/-- An address setter whose array has an element of `0x80` or above, which is
    negative as a Java `byte`. -/
def Ipv6Call.HasHighByte : Ipv6Call → Prop
  | .setSrcAddr addr | .setDstAddr addr => ∃ b ∈ addr, 0x80 ≤ b.toNat
  | _ => False

/-! ## Section 2: What is reported -/

namespace UnsafeAccess

theorem checkBounds_reports (value : JLong) {n : Nat} (hn : n ∈ [1, 2, 4, 8]) (w : World) :
    w.reports < (checkBounds value n w).reports ↔
      ¬ (0 ≤ value.toInt ∧ value.toInt ≤ maxValue n) := by
  unfold checkBounds
  split
  · rename_i h
    simp only [Nat.lt_add_one, true_iff]
    omega
  · rename_i h
    simp only [hn, true_and] at h
    omega

/-- The two bounds together say that the value is small as an unsigned one. -/
theorem toInt_within_iff {n : Nat} (value : BitVec n) {k : Nat} (hk : 2 * k < 2 ^ n) :
    (0 ≤ value.toInt ∧ value.toInt ≤ k) ↔ value.toNat ≤ k := by
  have hlt := value.isLt
  rw [BitVec.toInt_eq_toNat_cond]
  split <;> omega

theorem putByte_reports (ua : UnsafeAccess) (value : JInt) (w : World) :
    w.reports < (ua.putByte value w).2.reports ↔ ¬ value.toNat < 2 ^ 8 := by
  have h := checkBounds_reports (value.signExtend 64) (n := 1) (by decide) w
  rw [BitVec.toInt_signExtend_of_le (by decide)] at h
  exact h.trans (not_congr ((toInt_within_iff value (by decide)).trans Nat.le_iff_lt_add_one))

theorem putShort_reports (ua : UnsafeAccess) (value : JInt) (w : World) :
    w.reports < (ua.putShort value w).2.reports ↔ ¬ value.toNat < 2 ^ 16 := by
  have h := checkBounds_reports (value.signExtend 64) (n := 2) (by decide) w
  rw [BitVec.toInt_signExtend_of_le (by decide)] at h
  exact h.trans (not_congr ((toInt_within_iff value (by decide)).trans Nat.le_iff_lt_add_one))

theorem putInt_reports (ua : UnsafeAccess) (value : JLong) (w : World) :
    w.reports < (ua.putInt value w).2.reports ↔ ¬ value.toNat < 2 ^ 32 :=
  (checkBounds_reports value (n := 4) (by decide) w).trans
    (not_congr ((toInt_within_iff value (by decide)).trans Nat.le_iff_lt_add_one))

/-- Reports are never taken back. -/
theorem putByte_reports_le (ua : UnsafeAccess) (value : JInt) (w : World) :
    w.reports ≤ (ua.putByte value w).2.reports := by
  show w.reports ≤ (checkBounds (value.signExtend 64) 1 w).reports
  unfold checkBounds
  split
  · exact Nat.le_succ _
  · exact Nat.le_refl _

end UnsafeAccess

/-- An array element is out of range as an `int` exactly when it is negative. -/
theorem signExtend_high_iff (b : JByte) : ¬ (b.signExtend 32).toNat < 2 ^ 8 ↔ 0x80 ≤ b.toNat := by
  have hlt := b.isLt
  rw [BitVec.toNat_signExtend, BitVec.msb_eq_decide, BitVec.toNat_setWidth]
  simp only [decide_eq_true_eq]
  split <;> omega

namespace Ipv6Packet

theorem putBytes_reports_le (n : Nat) (addr : List JByte) (ua : UnsafeAccess) (w : World) :
    w.reports ≤ (putBytes n addr ua w).2.2.reports := by
  induction n generalizing addr ua w with
  | zero => exact Nat.le_refl _
  | succ n ih =>
    cases addr with
    | nil => exact Nat.le_refl _
    | cons b addr => exact (ua.putByte_reports_le _ w).trans (ih addr _ _)

/-- The loop reports something if and only if it meets a negative element. -/
theorem putBytes_reports (n : Nat) (addr : List JByte) (ua : UnsafeAccess) (w : World) :
    w.reports < (putBytes n addr ua w).2.2.reports ↔ ∃ b ∈ addr.take n, 0x80 ≤ b.toNat := by
  induction n generalizing addr ua w with
  | zero => simp [putBytes]
  | succ n ih =>
    cases addr with
    | nil => simp [putBytes]
    | cons b addr =>
      have hhead := (ua.putByte_reports (b.signExtend 32) w).trans (signExtend_high_iff b)
      have hhead_le := ua.putByte_reports_le (b.signExtend 32) w
      have htail := ih addr (ua.advance 1) (ua.putByte (b.signExtend 32) w).2
      have htail_le := putBytes_reports_le n addr (ua.advance 1)
        (ua.putByte (b.signExtend 32) w).2
      show w.reports < (putBytes n addr (ua.advance 1)
        (ua.putByte (b.signExtend 32) w).2).2.2.reports ↔ _
      rw [List.take_succ_cons, List.exists_mem_cons_iff, ← hhead, ← htail]
      omega

end Ipv6Packet

/-! ## Section 3: What the getter returns -/

theorem signToUnsignByte_stored_iff (v : JInt) :
    signToUnsignByte (BitVec.ofNat 8 ((v.setWidth 8).toNat % 256 ^ 1)) = v ↔
      v.toNat < 2 ^ 8 := by
  refine ⟨?_, signToUnsignByte_stored⟩
  intro h
  rw [← h, signToUnsignByte_eq, BitVec.toNat_setWidth, BitVec.toNat_ofNat]
  omega

theorem signToUnsignShort_stored_iff (v : JInt) :
    signToUnsignShort (BitVec.ofNat 16 ((v.setWidth 16).toNat % 256 ^ 2)) = v ↔
      v.toNat < 2 ^ 16 := by
  refine ⟨?_, signToUnsignShort_stored⟩
  intro h
  rw [← h, signToUnsignShort_eq, BitVec.toNat_setWidth, BitVec.toNat_ofNat]
  omega

theorem signToUnsignInt_stored_iff (v : JLong) :
    signToUnsignInt (BitVec.ofNat 32 ((v.setWidth 32).toNat % 256 ^ 4)) = v ↔
      v.toNat < 2 ^ 32 := by
  refine ⟨?_, signToUnsignInt_stored⟩
  intro h
  rw [← h, signToUnsignInt_eq, BitVec.toNat_setWidth, BitVec.toNat_ofNat]
  omega

/-- A setter is exact if it reports the arguments that do not come back. -/
theorem Accessors.warnsExactly {C R F : Type} (A : Accessors C R F) {set get : C} {arg : R}
    (inRange : Prop) (p : Packet) (ua : UnsafeAccess) (w : World) {v : Nat}
    (hfield : A.field get = A.field set)
    (hstored : A.stored set = some (A.layout.size (A.field set), v))
    (hback : A.decode get (v % 256 ^ A.layout.size (A.field set)) = arg ↔ inRange)
    (hreports : w.reports < (A.exec set p ua w).2.2.reports ↔ ¬ inRange) :
    WarnsExactly A.exec set get arg p ua w := by
  show w.reports < (A.exec set p ua w).2.2.reports ↔ _ ≠ arg
  rw [hreports, A.exec_result_self set get hfield hstored, Ne, hback]

/-- Every setter of `Ipv4Packet` is exact. -/
theorem Ipv4Setter.warnsExactly {set get : Ipv4Call} {arg : CallResult}
    (h : Ipv4Setter set get arg) (p : Packet) (ua : UnsafeAccess) (w : World) :
    WarnsExactly Ipv4Call.exec set get arg p ua w := by
  show WarnsExactly ipv4Accessors.exec set get arg p ua w
  cases h with
  | versionIhl v | typeOfService v | timeToLive v | nextProtoId v =>
    refine ipv4Accessors.warnsExactly (v.toNat < 2 ^ 8) p ua w (by rfl) (by rfl) ?_ ?_
    · exact (Iff.of_eq (CallResult.int.injEq _ _)).trans (signToUnsignByte_stored_iff v)
    · exact (p.seek _ ua).putByte_reports v w
  | totalLength v | packetId v | fragmentOffset v | hdrChecksum v =>
    refine ipv4Accessors.warnsExactly (v.toNat < 2 ^ 16) p ua w (by rfl) (by rfl) ?_ ?_
    · exact (Iff.of_eq (CallResult.int.injEq _ _)).trans (signToUnsignShort_stored_iff v)
    · exact (p.seek _ ua).putShort_reports v w
  | srcAddr v | dstAddr v =>
    refine ipv4Accessors.warnsExactly (v.toNat < 2 ^ 32) p ua w (by rfl) (by rfl) ?_ ?_
    · exact (Iff.of_eq (CallResult.long.injEq _ _)).trans (signToUnsignInt_stored_iff v)
    · exact (p.seek _ ua).putInt_reports v w

/-- An address setter stores every array of 16 bytes, so any report is a false
    alarm. -/
theorem warnsExactly_address_iff {set get : Ipv6Call} {addr : List JByte} {f : Ipv6Field}
    (h : Ipv6Assigns f set get (.bytes addr)) (p : Packet) (ua : UnsafeAccess) (w : World)
    (hreports : w.reports < (set.exec p ua w).2.2.reports ↔ ∃ b ∈ addr, 0x80 ≤ b.toNat) :
    WarnsExactly Ipv6Call.exec set get (.bytes addr) p ua w ↔ ¬ ∃ b ∈ addr, 0x80 ≤ b.toNat := by
  have hback := ipv6_fieldLaws.get_set f set get _ h p ua (set.exec p ua w).2.1 w
  simp only [WarnsExactly, hback, hreports, ne_eq, not_true_eq_false, iff_false]

/-- A setter of `Ipv6Packet` is exact unless it is handed a negative array
    element. -/
theorem Ipv6Setter.warnsExactly_iff {set get : Ipv6Call} {arg : Ipv6Result}
    (h : Ipv6Setter set get arg) (p : Packet) (ua : UnsafeAccess) (w : World) :
    WarnsExactly Ipv6Call.exec set get arg p ua w ↔ ¬ set.HasHighByte := by
  cases h with
  | srcAddr addr hlen =>
    apply warnsExactly_address_iff (Ipv6Assigns.srcAddr addr hlen)
    have h := Ipv6Packet.putBytes_reports 16 addr (p.seek Ipv6Packet.SRC_ADDR_OFFSET ua) w
    rwa [List.take_of_length_le (Nat.le_of_eq hlen)] at h
  | dstAddr addr hlen =>
    apply warnsExactly_address_iff (Ipv6Assigns.dstAddr addr hlen)
    have h := Ipv6Packet.putBytes_reports 16 addr (p.seek Ipv6Packet.DST_ADDR_OFFSET ua) w
    rwa [List.take_of_length_le (Nat.le_of_eq hlen)] at h
  | vtcFlow v =>
    refine iff_of_true ?_ not_false
    refine ipv6Accessors.warnsExactly (v.toNat < 2 ^ 32) p ua w (by rfl) (by rfl) ?_ ?_
    · exact (Iff.of_eq (Ipv6Result.long.injEq _ _)).trans (signToUnsignInt_stored_iff v)
    · exact (p.seek _ ua).putInt_reports v w
  | payloadLength v =>
    refine iff_of_true ?_ not_false
    refine ipv6Accessors.warnsExactly (v.toNat < 2 ^ 16) p ua w (by rfl) (by rfl) ?_ ?_
    · exact (Iff.of_eq (Ipv6Result.int.injEq _ _)).trans (signToUnsignShort_stored_iff v)
    · exact (p.seek _ ua).putShort_reports v w
  | proto v | hopLimits v =>
    refine iff_of_true ?_ not_false
    refine ipv6Accessors.warnsExactly (v.toNat < 2 ^ 8) p ua w (by rfl) (by rfl) ?_ ?_
    · exact (Iff.of_eq (Ipv6Result.int.injEq _ _)).trans (signToUnsignByte_stored_iff v)
    · exact (p.seek _ ua).putByte_reports v w

/-- **Main**: on every packet, cursor and memory, a setter of either class
    warns exactly, the address setters with a negative array element apart. -/
theorem setters_warnExactly_iff (p : Packet) (ua : UnsafeAccess) (w : World) :
    (∀ set get arg, Ipv4Setter set get arg → WarnsExactly Ipv4Call.exec set get arg p ua w) ∧
    (∀ set get arg, Ipv6Setter set get arg →
      (WarnsExactly Ipv6Call.exec set get arg p ua w ↔ ¬ set.HasHighByte)) :=
  ⟨fun _ _ _ h => h.warnsExactly p ua w, fun _ _ _ h => h.warnsExactly_iff p ua w⟩

/-- The loopback address `::1` raises no alarm. -/
theorem setDstAddr_loopback_warnsExactly :
    WarnsExactly Ipv6Call.exec (.setDstAddr (List.replicate 15 0 ++ [1])) .getDstAddr
      (.bytes (List.replicate 15 0 ++ [1])) ⟨0, 0⟩ UnsafeAccess.new (World.quiet fun _ => 0) := by
  have h := (setters_warnExactly_iff ⟨0, 0⟩ UnsafeAccess.new (World.quiet fun _ => 0)).2
    _ _ _ (Ipv6Setter.dstAddr (List.replicate 15 0 ++ [1]) rfl)
  exact h.mpr (by simp [Ipv6Call.HasHighByte])

/-- The link-local address `fe80::1` is stored and read back, and reported. -/
theorem setSrcAddr_linkLocal_falseAlarm :
    let addr : List JByte := [0xfe, 0x80, 0, 0, 0, 0, 0, 0, 0, 0, 0, 0, 0, 0, 0, 1]
    ¬ WarnsExactly Ipv6Call.exec (.setSrcAddr addr) .getSrcAddr (.bytes addr) ⟨0, 0⟩
      UnsafeAccess.new (World.quiet fun _ => 0) := by
  intro addr h
  have hnot := ((Ipv6Setter.srcAddr addr rfl).warnsExactly_iff _ _ _).mp h
  exact hnot ⟨0xfe, by simp [addr], by decide⟩

end PacketPro
