import PacketPro.DpdkJava.Processors
import PacketPro.Jvm.Blacklist

/-! # The Verdict of the Java Firewall

    What `FirewallProcessor.inspect` does with a packet, in terms of the text
    of `blacklist.txt`. The file is read with the first octet highest, while
    `getSrcAddr` reads the header in host order, so the verdict is about the
    source address with its octets in the opposite order.
-/

open ByteMem

namespace PacketPro.DpdkJava

namespace FirewallProcessor

/-- `inspect` makes one call, and `passes` says which. -/
theorem inspect_calls (blacklist : Finset JLong) (p : Packet) (s : Processor) (w : World) :
    (inspect blacklist p s w).2.1.calls =
      s.calls ++ [if p.passes blacklist w.mem then .sendPacket p else .freePacket p] := by
  have hverdict := PacketPro.FirewallProcessor.verdict_fst blacklist p s.rp_ind.unsafe_access w
  unfold inspect
  by_cases hpass : p.passes blacklist w.mem = true
  · simp only [hverdict, if_pos hpass]
    rfl
  · simp only [hverdict, if_neg hpass]
    rfl

/-- `inspect` frees the packet if the file lists its source address and sends
    it otherwise. -/
def FollowsFile (lines : List JString) (blacklist : Finset JLong) (p : Packet) (s : Processor)
    (w : World) : Prop :=
  (Lists lines (p.srcQuad w.mem) →
    (inspect blacklist p s w).2.1.calls = s.calls ++ [.freePacket p]) ∧
  (¬ Lists lines (p.srcQuad w.mem) →
    (inspect blacklist p s w).2.1.calls = s.calls ++ [.sendPacket p])

/-- **Main**: for every file of dotted quads and every IPv4 packet, the
    verdict follows the file if and only if the file lists the source address
    exactly when it lists that address with its octets in the opposite order. -/
theorem followsFile_iff (lines : List JString) (hquads : ∀ line ∈ lines, ∃ q, Denotes line q) :
    ∃ blacklist, readBlacklist (some lines) = some blacklist ∧
      ∀ (p : Packet) (s : Processor) (w : World), p.versionNibble w.mem = 4 →
        (FollowsFile lines blacklist p s w ↔
          (Lists lines (p.srcQuad w.mem) ↔ Lists lines (p.srcQuad w.mem).reverse)) := by
  obtain ⟨blacklist, hread⟩ := readLines_isSome hquads ∅
  refine ⟨blacklist, hread, ?_⟩
  intro p s w hversion
  have hpasses := Packet.passes_iff_not_lists_reverse hquads hread hversion
  unfold FollowsFile
  rw [inspect_calls]
  by_cases hrev : Lists lines (p.srcQuad w.mem).reverse
  · -- the packet is freed
    have hfree : ¬ p.passes blacklist w.mem = true := fun h => hpasses.mp h hrev
    simp [hfree, hrev]
  · -- the packet is sent
    have hsend : p.passes blacklist w.mem = true := hpasses.mpr hrev
    simp [hsend, hrev]

/-! ### Concrete files -/

/-- The file with the one line `10.0.0.1`. -/
def sampleLine : JString := text ['1', '0', '.', '0', '.', '0', '.', '1']

theorem sampleLine_denotes : Denotes sampleLine ⟨10, 0, 0, 1⟩ := by
  refine ⟨text ['1', '0'], text ['0'], text ['0'], text ['1'], rfl, ?_, ?_, ?_, ?_⟩ <;>
    constructor <;> simp [text, IsDigit, decimal, jchar]

theorem sampleLine_quads : ∀ line ∈ [sampleLine], ∃ q, Denotes line q := by
  intro line hline
  rw [List.mem_singleton.mp hline]
  exact ⟨_, sampleLine_denotes⟩

/-- Memory with an IPv4 header at `0x2000` and the given source address bytes,
    in network order. -/
def headerWorld (source : Quad) : World :=
  World.quiet (storeLE (storeLE (fun _ => 0) 0x2000 1 0x45) 0x200C 4 source.reverse.value)

def headerPacket : Packet := ⟨0x1000, 0x2000⟩

/-- A packet from 7.7.7.7 against the file with `10.0.0.1`: neither order of
    its octets is listed, and the packet is sent. -/
theorem followsFile_unlisted_source :
    (∃ blacklist, readBlacklist (some [sampleLine]) = some blacklist ∧
      FollowsFile [sampleLine] blacklist headerPacket
        (Processor.new 0x100 0x300 0x500 (headerWorld ⟨7, 7, 7, 7⟩)).1
        (headerWorld ⟨7, 7, 7, 7⟩)) := by
  obtain ⟨blacklist, hread, hiff⟩ := followsFile_iff [sampleLine] sampleLine_quads
  refine ⟨blacklist, hread, (hiff _ _ _ (by decide)).mpr ?_⟩
  rw [lists_singleton sampleLine_denotes, lists_singleton sampleLine_denotes]
  decide

/-- The file lists `10.0.0.1`, and a packet from 10.0.0.1 is sent. -/
theorem listed_source_is_sent :
    ∃ blacklist, readBlacklist (some [sampleLine]) = some blacklist ∧
      Lists [sampleLine] (headerPacket.srcQuad (headerWorld ⟨10, 0, 0, 1⟩).mem) ∧
      (inspect blacklist headerPacket
        (Processor.new 0x100 0x300 0x500 (headerWorld ⟨10, 0, 0, 1⟩)).1
        (headerWorld ⟨10, 0, 0, 1⟩)).2.1.calls = [.sendPacket headerPacket] ∧
      ¬ FollowsFile [sampleLine] blacklist headerPacket
        (Processor.new 0x100 0x300 0x500 (headerWorld ⟨10, 0, 0, 1⟩)).1
        (headerWorld ⟨10, 0, 0, 1⟩) := by
  -- the set holds 10.0.0.1, while the packet's address is read as 1.0.0.10
  obtain ⟨blacklist, hread⟩ := readLines_isSome sampleLine_quads ∅
  have hversion : headerPacket.versionNibble (headerWorld ⟨10, 0, 0, 1⟩).mem = 4 := by decide
  have hlisted : Lists [sampleLine] (headerPacket.srcQuad (headerWorld ⟨10, 0, 0, 1⟩).mem) := by
    rw [lists_singleton sampleLine_denotes]
    decide
  have hpass : headerPacket.passes blacklist (headerWorld ⟨10, 0, 0, 1⟩).mem = true := by
    rw [Packet.passes_iff_not_lists_reverse sampleLine_quads hread hversion,
      lists_singleton sampleLine_denotes]
    decide
  have hsent : (inspect blacklist headerPacket
      (Processor.new 0x100 0x300 0x500 (headerWorld ⟨10, 0, 0, 1⟩)).1
      (headerWorld ⟨10, 0, 0, 1⟩)).2.1.calls = [.sendPacket headerPacket] := by
    rw [inspect_calls, if_pos hpass]
    rfl
  refine ⟨blacklist, hread, hlisted, hsent, ?_⟩
  rintro ⟨hfree, -⟩
  have hfreed := hfree hlisted
  rw [hsent] at hfreed
  exact absurd hfreed (by decide)

end FirewallProcessor

end PacketPro.DpdkJava
