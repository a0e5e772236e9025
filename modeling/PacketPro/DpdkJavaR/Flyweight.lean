import PacketPro.DpdkJava.ReceivePoller
import PacketPro.DpdkJavaR.PacketList

/-! # The Flyweight Agrees With the Object List

    `DpdkJava` decodes a burst into a list of packet objects before the loop
    over it starts; `DpdkJava-R` decodes pair by pair while the loop runs, into
    one packet object. Between two pairs the loop body runs, and may write to
    packet memory.

    **Simulation** (`flyweight_agrees`): for every loop body made of accessor
    calls, both loops observe the same mbuf pointers and the same results and
    leave the same packet memory, as long as no header overlaps a buffer.
-/

open ByteMem

namespace PacketPro

/-! ## Section 1: Loop bodies -/

/-- A loop body: calls on the current packet, each of which may depend on the
    results before it, and at the end a state for the next packet. -/
inductive Script (σ : Type) where
  | done (s : σ)
  | call (c : Ipv4Call) (cont : CallResult → Script σ)

namespace Script

variable {σ : Type}

/-- Run a body: the results of its calls, the cursor, the state, the world. -/
def run (p : Packet) : Script σ → UnsafeAccess → World → List CallResult × UnsafeAccess × σ × World
  | done s, ua, w => ([], ua, s, w)
  | call c cont, ua, w =>
    let (result, ua, w) := c.exec p ua w
    let (results, ua, s, w) := run p (cont result) ua w
    (result :: results, ua, s, w)

/-- Two runs from memories that agree on the header observe the same, and do
    not make the memories differ where they agreed. -/
theorem run_congr (p : Packet) (body : Script σ) (ua ua' : UnsafeAccess) {w w' : World}
    (hheader : ∀ b, b ∈ p.header → w.mem b = w'.mem b) :
    (body.run p ua w).1 = (body.run p ua' w').1 ∧
    (body.run p ua w).2.2.1 = (body.run p ua' w').2.2.1 ∧
    ∀ b, w.mem b = w'.mem b → (body.run p ua w).2.2.2.mem b = (body.run p ua' w').2.2.2.mem b := by
  induction body generalizing ua ua' w w' with
  | done s => exact ⟨rfl, rfl, fun b hb => hb⟩
  | call c cont ih =>
    have hresult := c.exec_result_congr p ua ua' hheader
    have hkeep : ∀ b, w.mem b = w'.mem b →
        (c.exec p ua w).2.2.mem b = (c.exec p ua' w').2.2.mem b :=
      fun b hb => c.exec_mem_congr p ua ua' hb
    obtain ⟨hresults, hstate, hmem⟩ := ih (c.exec p ua w).1 (c.exec p ua w).2.1
      (c.exec p ua' w').2.1 (fun b hb => hkeep b (hheader b hb))
    -- the two continuations are the same, since the results are
    rw [run, run]
    simp only [← hresult]
    refine ⟨?_, hstate, fun b hb => hmem b (hkeep b hb)⟩
    rw [hresults]

/-- A body writes to the header of its packet only. -/
theorem run_mem_outside (p : Packet) (body : Script σ) (ua : UnsafeAccess) (w : World) {b : Addr}
    (hb : b ∉ p.header) : (body.run p ua w).2.2.2.mem b = w.mem b := by
  induction body generalizing ua w with
  | done s => rfl
  | call c cont ih =>
    rw [run]
    exact (ih _ _ _).trans (c.exec_mem_outside p ua w hb)

end Script

/-- What a loop shows: for each packet its mbuf pointer and the results. -/
abbrev Observed : Type := List (Mbuf × List CallResult)

/-- One iteration of a loop with the given bodies. -/
def observe {σ : Type} (bodies : σ → Mbuf → Script σ) (p : Packet) (ua : UnsafeAccess)
    (s : σ × Observed) (w : World) : UnsafeAccess × (σ × Observed) × World :=
  let (results, ua, s', w) := (bodies s.1 p.mbuf_pointer).run p ua w
  (ua, (s', s.2 ++ [(p.mbuf_pointer, results)]), w)

/-- The loop over the object list, whose packets share one cursor. -/
def observeObjects {σ : Type} (bodies : σ → Mbuf → Script σ) (rp : DpdkJava.ReceivePoller)
    (delivered : List RxMbuf) (s : σ) (w : World) : (σ × Observed) × World :=
  let (packets, rp, w) := rp.getBurst delivered w
  (packets.foldl (fun (ua, s, w) p => observe bodies p ua s w)
    (rp.unsafe_access, (s, []), w)).2

/-- The loop over the list in place. -/
def observeList {σ : Type} (bodies : σ → Mbuf → Script σ) (rp : DpdkJavaR.ReceivePoller)
    (delivered : List RxMbuf) (s : σ) (w : World) : (σ × Observed) × World :=
  let (some_packets, rp, w) := rp.getBurst delivered w
  if some_packets then
    (rp.packets.forEach (observe bodies) (s, []) w).2
  else
    ((s, []), w)

/-! ## Section 2: Simulation -/

section simulation
variable {σ : Type} (bodies : σ → Mbuf → Script σ) (delivered : List RxMbuf)

/-- The state of the loop over the objects when it has seen `seen`. -/
def objectsAfter (seen : List Packet) (ua : UnsafeAccess) (s : σ × Observed) (w : World) :
    UnsafeAccess × (σ × Observed) × World :=
  seen.foldl (fun (ua, s, w) p => observe bodies p ua s w) (ua, s, w)

theorem objectsAfter_append (seen : List Packet) (p : Packet) (ua : UnsafeAccess)
    (s : σ × Observed) (w : World) :
    objectsAfter bodies (seen ++ [p]) ua s w =
      observe bodies p (objectsAfter bodies seen ua s w).1 (objectsAfter bodies seen ua s w).2.1
        (objectsAfter bodies seen ua s w).2.2 := by
  simp [objectsAfter, List.foldl_append]

variable (bufR bufD : Region 64)

/-- The simulation relation: same state and observations, same packet memory,
    and the pairs of the list in place are still what they were (`base`). -/
structure Agrees (base : Memory 64) (s s' : σ × Observed) (w w' : World) : Prop where
  state : s = s'
  packets : ∀ b, b ∉ bufR → b ∉ bufD → w.mem b = w'.mem b
  pairs : ∀ b, b ∈ bufR → w.mem b = base b

variable {bufR bufD}

/-- One packet keeps the relation, when its header overlaps neither buffer. -/
theorem Agrees.observe {base : Memory 64} {s s' : σ × Observed} {w w' : World}
    (h : Agrees bufR bufD base s s' w w') {p : Packet} (hR : p.header.Disjoint bufR)
    (hD : p.header.Disjoint bufD) (ua ua' : UnsafeAccess) :
    Agrees bufR bufD base (observe bodies p ua s w).2.1 (observe bodies p ua' s' w').2.1
      (observe bodies p ua s w).2.2 (observe bodies p ua' s' w').2.2 := by
  obtain ⟨rfl, hpackets, hpairs⟩ := h
  obtain ⟨hresults, hstate, hmem⟩ := (bodies s.1 p.mbuf_pointer).run_congr p ua ua'
    (fun b hb => hpackets b (hR b hb) (hD b hb))
  refine ⟨?_, fun b hbR hbD => hmem b (hpackets b hbR hbD), ?_⟩
  · simp only [PacketPro.observe, hresults, hstate]
  · intro b hb
    have hout : b ∉ p.header := fun hin => hR b hin hb
    exact ((bodies s.1 p.mbuf_pointer).run_mem_outside p ua w hout).trans (hpairs b hb)

end simulation

/-- **Main**: from worlds with the same packet memory, the loop over the list
    in place and the loop over the objects observe the same mbuf pointers and
    the same results, and end with the same packet memory. -/
theorem flyweight_agrees {σ : Type} (bodies : σ → Mbuf → Script σ) (delivered : List RxMbuf)
    (hne : delivered ≠ []) (hlen : delivered.length ≤ 32) (rpR : DpdkJavaR.ReceivePoller)
    (rpD : DpdkJava.ReceivePoller) (s : σ) (wR wD : World)
    (hR : ∀ r ∈ delivered,
      r.packet.header.Disjoint ⟨rpR.mem_pointer, 2 + 16 * delivered.length⟩)
    (hD : ∀ r ∈ delivered,
      r.packet.header.Disjoint ⟨rpD.mem_pointer, 2 + 16 * delivered.length⟩)
    (hmem : ∀ b, b ∉ (⟨rpR.mem_pointer, 2 + 16 * delivered.length⟩ : Region 64) →
      b ∉ (⟨rpD.mem_pointer, 2 + 16 * delivered.length⟩ : Region 64) → wR.mem b = wD.mem b) :
    (observeList bodies rpR delivered s wR).1 = (observeObjects bodies rpD delivered s wD).1 ∧
    ∀ b, b ∉ (⟨rpR.mem_pointer, 2 + 16 * delivered.length⟩ : Region 64) →
      b ∉ (⟨rpD.mem_pointer, 2 + 16 * delivered.length⟩ : Region 64) →
      (observeList bodies rpR delivered s wR).2.mem b =
        (observeObjects bodies rpD delivered s wD).2.mem b := by
  have hcount : delivered.length < 2 ^ 16 := by omega
  obtain ⟨hobjects, -, -, hmemD⟩ := rpD.getBurst_cons delivered wD hcount hne
  obtain ⟨hsome, hstart, hsize⟩ := rpR.getBurst_cons delivered wR hcount hne
  have hdecoded := rpR.getBurst_packetsAt delivered wR hcount
  have hpairs : ∀ b, b ∈ (⟨cell rpR.mem_pointer 2, 16 * delivered.length⟩ : Region 64) →
      b ∈ (⟨rpR.mem_pointer, 2 + 16 * delivered.length⟩ : Region 64) :=
    cell_subset rpR.mem_pointer _ 2 _ (by omega) (by omega)
  -- both polls leave packet memory alone, so the relation holds at the start
  have hagree : Agrees ⟨rpR.mem_pointer, 2 + 16 * delivered.length⟩
      ⟨rpD.mem_pointer, 2 + 16 * delivered.length⟩ (rpR.getBurst delivered wR).2.2.mem
      (s, []) (s, []) (rpR.getBurst delivered wR).2.2 (rpD.getBurst delivered wD).2.2 := by
    refine ⟨rfl, ?_, fun b _ => rfl⟩
    intro b hbR hbD
    rw [rpR.getBurst_mem, hmemD, nat_receive_burst_mem_outside _ _ _ hcount hbR,
      nat_receive_burst_mem_outside _ _ _ hcount hbD, hmem b hbR hbD]
  -- the loop over the list runs in step with the loop over the objects seen so far
  have hrule := DpdkJavaR.PacketList.forEach_rule (observe bodies)
    (fun seen s' w' =>
      let after := objectsAfter bodies seen (rpD.getBurst delivered wD).2.1.unsafe_access (s, [])
        (rpD.getBurst delivered wD).2.2
      Agrees ⟨rpR.mem_pointer, 2 + 16 * delivered.length⟩
        ⟨rpD.mem_pointer, 2 + 16 * delivered.length⟩ (rpR.getBurst delivered wR).2.2.mem
        s' after.2.1 w' after.2.2)
    hcount hdecoded ?hmem ?htouch ?hbody hstart hsize hagree delivered.length (Nat.le_refl _)
  case hmem =>
    intro seen s' w' h b hb
    exact h.pairs b (hpairs b hb)
  case htouch =>
    intro seen s' w' k hk h
    exact ⟨h.state, h.packets, h.pairs⟩
  case hbody =>
    intro seen p rest ua s' w' hsplit h
    have hp : p ∈ delivered.map RxMbuf.packet := by
      rw [hsplit]
      simp
    obtain ⟨r, hr, rfl⟩ := List.mem_map.mp hp
    rw [objectsAfter_append]
    exact h.observe bodies (hR r hr) (hD r hr) ua _
  obtain ⟨-, hend⟩ := hrule
  -- the loop of the source makes one pass for each packet of the list
  have hfuel : (rpR.getBurst delivered wR).2.1.packets.size.toNat = delivered.length := by
    rw [hsize, BitVec.toNat_ofNat]
    omega
  have hall : (delivered.map RxMbuf.packet).take delivered.length =
      delivered.map RxMbuf.packet := by
    rw [List.take_of_length_le (by simp)]
  rw [hall] at hend
  unfold observeList observeObjects
  simp only [hsome, if_true, DpdkJavaR.PacketList.forEach, hfuel, hobjects]
  exact ⟨hend.state, hend.packets⟩

/-- A body that reads the version and then writes the time to live. -/
def sampleBodies : Unit → Mbuf → Script Unit := fun _ _ =>
  .call .whichIP fun _ => .call (.setTimeToLive 7) fun _ => .done ()

def samplePair : List RxMbuf := [⟨0x1000, 0x2000⟩, ⟨0x1800, 0x3000⟩]

theorem flyweight_agrees_sample :
    samplePair ≠ [] ∧ samplePair.length ≤ 32 ∧
    (observeList sampleBodies (DpdkJavaR.ReceivePoller.new 0x10000) samplePair ()
        (World.quiet fun _ => 0)).1 =
      (observeObjects sampleBodies (DpdkJava.ReceivePoller.new 0x20000) samplePair ()
        (World.quiet fun _ => 0)).1 := by
  have hne : samplePair ≠ [] := by decide
  have hlen : samplePair.length ≤ 32 := by decide
  have hapart : ∀ a : Addr, 0x10000 ≤ a.toNat → a.toNat ≤ 0x20000 → ∀ r ∈ samplePair,
      r.packet.header.Disjoint ⟨a, 2 + 16 * samplePair.length⟩ := by
    intro a hlo hhi r hr
    have hend : r.packet.packet_pointer.toNat + ipv4HdrSize ≤ 0x10000 := by
      revert r
      decide
    apply Region.disjoint_of_le
    · exact Nat.le_trans hend hlo
    · show a.toNat + (2 + 16 * 2) ≤ 2 ^ 64
      omega
  refine ⟨hne, hlen, ?_⟩
  exact (flyweight_agrees sampleBodies samplePair hne hlen (DpdkJavaR.ReceivePoller.new 0x10000)
    (DpdkJava.ReceivePoller.new 0x20000) () (World.quiet fun _ => 0) (World.quiet fun _ => 0)
    (hapart 0x10000 (by decide) (by decide)) (hapart 0x20000 (by decide) (by decide))
    (fun _ _ _ => rfl)).1

end PacketPro
