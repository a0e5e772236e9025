import PacketPro.DpdkJava.BurstList
import PacketPro.DpdkJavaR.PacketListCreate

/-! # Partial Transmission

    `rte_eth_tx_burst` takes over a first part of a batch and returns how many
    mbufs that was; the rest stays with the caller. `nat_send_packets` drops
    the return value, and the Java side empties its list after the call. So in
    both versions of the framework a sender is an `Outbox`, which forgets a
    batch once it is handed over.

    * `PushesOut`: what a sender has to show for this, one call at a time.
    * `neverLeaks_iff_tookAll`: at every point of every run all mbufs are
      accounted for exactly when the NIC takes each batch whole.
    * `sendAll_batchSizes`: how large the batches are is settled by the clock
      and the number of calls, so the condition is one on the NIC's answers.
-/

open ByteMem Batching

namespace PacketPro

/-! ## Section 1: Definitions -/

/-- A sequence of `sendPacket` calls. -/
def sendAll {σ : Type} (sendPacket : σ → Packet → World → σ × World) :
    List Packet → σ × World → σ × World
  | [], s => s
  | p :: ps, s => sendAll sendPacket ps (sendPacket s.1 p s.2)

/-- Every mbuf that was passed to the sender, as often as it was passed, is
    owned by the NIC, has been freed, or waits in the list of the sender. -/
def NoLeak (passed : List Packet) (waiting : List Mbuf) (nic : Nic) : Prop :=
  (passed.map Packet.mbuf_pointer).Subperm (owned nic.txBursts ++ nic.freed ++ waiting)

/-- The return value of every `rte_eth_tx_burst` so far is the batch size. -/
def Nic.TookAll (nic : Nic) : Prop := ∀ d ∈ nic.txBursts, d.taken = d.batch.length

/-- How many mbufs each `rte_eth_tx_burst` so far was given. -/
def Nic.batchSizes (nic : Nic) : List Nat := nic.txBursts.map fun d => d.batch.length

namespace DpdkJava

/-- `sendPacket` for each of `ps` on a new sender. -/
def PacketSender.sends (start_pointer : JLong) (ps : List Packet) (w : World) :
    PacketSender × World :=
  sendAll sendPacket ps (new start_pointer w)

/-- No leak after every first part of the calls. -/
def PacketSender.NeverLeaks (start_pointer : JLong) (ps : List Packet) (w : World) : Prop :=
  ∀ k ≤ ps.length,
    NoLeak (ps.take k)
      ((sends start_pointer (ps.take k) w).1.pending (sends start_pointer (ps.take k) w).2.mem)
      (sends start_pointer (ps.take k) w).2.nic

/-- When the batches of a sender are full or overdue, and how large they are
    then: `held` mbufs wait, the last hand-over was at `past`, and `ticks`
    values of the clock have been read. -/
def PacketSender.batchSizesFrom (reading : Nat → JLong) : Nat → Nat → JLong → Nat → List Nat
  | 0, _, _, _ => []
  | calls + 1, held, past, ticks =>
    if held + 1 = 32 then
      32 :: batchSizesFrom reading calls 0 (reading ticks) (ticks + 1)
    else if (reading ticks - past).toInt ≥ MILLI_SECOND then
      (held + 1) :: batchSizesFrom reading calls 0 (reading (ticks + 1)) (ticks + 2)
    else
      batchSizesFrom reading calls (held + 1) past (ticks + 1)

/-- The same for a new sender, whose constructor has read the clock once. -/
def PacketSender.batchSizes (reading : Nat → JLong) (calls : Nat) : List Nat :=
  batchSizesFrom reading calls 0 (reading 0) 1

end DpdkJava

namespace DpdkJavaR

/-- `sendPacket` for each of `ps` on a new sender. -/
def PacketSender.sends (startPointer : JLong) (ps : List Packet) (w : World) :
    PacketSender × World :=
  sendAll sendPacket ps (new startPointer w)

/-- No leak after every first part of the calls. -/
def PacketSender.NeverLeaks (startPointer : JLong) (ps : List Packet) (w : World) : Prop :=
  ∀ k ≤ ps.length,
    NoLeak (ps.take k)
      ((sends startPointer (ps.take k) w).1.list.mbufs (sends startPointer (ps.take k) w).2.mem)
      (sends startPointer (ps.take k) w).2.nic

end DpdkJavaR

/-! ## Section 2: Senders as outboxes -/

theorem sendAll_append {σ : Type} (sendPacket : σ → Packet → World → σ × World)
    (ps qs : List Packet) (s : σ × World) :
    sendAll sendPacket (ps ++ qs) s = sendAll sendPacket qs (sendAll sendPacket ps s) := by
  induction ps generalizing s with
  | nil => rfl
  | cons p ps ih => exact ih (sendPacket s.1 p s.2)

/-- The NIC and the sender's list, as an outbox. -/
def outbox (held : List Mbuf) (w : World) : Outbox Mbuf := ⟨held, w.nic.txBursts⟩

/-- The answer that a NIC gives to its `k`-th batch. -/
def Answers (accept : Nat → (n : Nat) → Fin (n + 1)) (k : Nat) (d : Delivery Mbuf) : Prop :=
  d.taken = accept k d.batch.length

theorem Answers.taken_le {accept : Nat → (n : Nat) → Fin (n + 1)} (k : Nat) (d : Delivery Mbuf)
    (h : Answers accept k d) : d.taken ≤ d.batch.length := by
  rw [h]
  exact Nat.le_of_lt_succ (accept k d.batch.length).isLt

/-- What a step does to the NIC, seen from outside: a push, and no freeing. -/
structure PushesOne (m : Mbuf) (held held' : List Mbuf) (w w' : World) : Prop where
  push : Outbox.Push (Answers w.nic.accept) m (outbox held w) (outbox held' w')
  freed : w'.nic.freed = w.nic.freed
  accept : w'.nic.accept = w.nic.accept

/-- While `holds` describes what a sender holds, each of its calls is a push. -/
def PushesOut {σ : Type} (sendPacket : σ → Packet → World → σ × World)
    (holds : σ → Memory 64 → List Mbuf → Prop) : Prop :=
  ∀ s w held p, holds s w.mem held → ∃ held',
    holds (sendPacket s p w).1 (sendPacket s p w).2.mem held' ∧
    PushesOne p.mbuf_pointer held held' w (sendPacket s p w).2

/-- A step that either leaves the NIC alone or presents everything held. -/
theorem push_of_transmit {held : List Mbuf} {m : Mbuf} {w w' : World} {flush : Prop}
    [Decidable flush]
    (hnic : w'.nic = if flush then Nic.transmit (held ++ [m]) w.nic else w.nic) :
    PushesOne m held (if flush then [] else held ++ [m]) w w' := by
  by_cases hflush : flush
  · rw [if_pos hflush] at hnic
    rw [if_pos hflush]
    refine ⟨?_, by rw [hnic]; rfl, by rw [hnic]; rfl⟩
    unfold outbox
    rw [hnic]
    exact Outbox.Push.deliver held w.nic.txBursts _ rfl
  · rw [if_neg hflush] at hnic
    rw [if_neg hflush]
    refine ⟨?_, by rw [hnic], by rw [hnic]⟩
    unfold outbox
    rw [hnic]
    exact Outbox.Push.wait held w.nic.txBursts

/-- The step lemmas are used here without a restriction on memory accesses. -/
theorem unrestricted {r : Region 64} (kind : AccessKind) (b : Addr) (_ : b ∈ r) :
    (fun (_ : AccessKind) (_ : Addr) => True) kind b := trivial

/-- What a `DpdkJava` sender holds: its list, with room for one more. -/
def DpdkJava.PacketSender.Holds (s : DpdkJava.PacketSender) (m : Memory 64) (held : List Mbuf) :
    Prop :=
  s.toBurstList.Buffers m held ∧ held.length < 32

/-- A call of `sendPacket`, with what the sender holds afterwards. -/
theorem DpdkJava.PacketSender.sendPacket_spec {s : DpdkJava.PacketSender} {w : World}
    {held : List Mbuf} (h : s.Holds w.mem held) (p : Packet) :
    (s.sendPacket p w).1.Holds (s.sendPacket p w).2.mem
      (if s.Flushes w held then [] else held ++ [p.mbuf_pointer]) ∧
    DpdkJava.BurstList.Pushed Nic.transmit (fun _ _ => True) s.toBurstList w held p.mbuf_pointer
      (s.sendPacket p w).1.toBurstList (s.sendPacket p w).2 := by
  have hadd := DpdkJava.BurstList.add_spec nat_send_packets_drains h.1 h.2 unrestricted p
  refine ⟨⟨hadd.buffers h.1.burst, ?_⟩, hadd⟩
  -- an unflushed list was not full
  by_cases hflushes : s.Flushes w held
  · rw [if_pos hflushes]
    exact Nat.zero_lt_succ 31
  · have hnot : held.length + 1 ≠ 32 :=
      fun hfull => hflushes (Or.inl ((DpdkJava.BurstList.full_iff h.1.burst h.2).mpr hfull))
    have hroom := h.2
    rw [if_neg hflushes, List.length_append, List.length_singleton]
    omega

theorem DpdkJava.PacketSender.sendPacket_pushesOut :
    PushesOut DpdkJava.PacketSender.sendPacket DpdkJava.PacketSender.Holds := by
  intro s w held p h
  obtain ⟨hholds, hadd⟩ := DpdkJava.PacketSender.sendPacket_spec h p
  exact ⟨_, hholds, push_of_transmit hadd.nic⟩

/-- What a `DpdkJava-R` sender holds. -/
def DpdkJavaR.PacketSender.Holds (s : DpdkJavaR.PacketSender) (m : Memory 64)
    (held : List Mbuf) : Prop :=
  s.toBurstQueue.Buffers m held

theorem DpdkJavaR.PacketSender.sendPacket_pushesOut :
    PushesOut DpdkJavaR.PacketSender.sendPacket DpdkJavaR.PacketSender.Holds := by
  intro s w held p hbuf
  obtain ⟨hbuf', hnic, -, -⟩ := DpdkJavaR.BurstQueue.add_spec nat_send_packets_drains hbuf
    unrestricted p
  exact ⟨_, hbuf', push_of_transmit hnic⟩

/-! ## Section 3: Every run -/

section runs
variable {σ : Type} {sendPacket : σ → Packet → World → σ × World}
  {holds : σ → Memory 64 → List Mbuf → Prop} (hpush : PushesOut sendPacket holds)
include hpush

/-- **Run lemma**: a sequence of calls is a run of the outbox. -/
theorem sendAll_pushes (ps : List Packet) (s : σ × World) (held : List Mbuf)
    (h : holds s.1 s.2.mem held) : ∃ held',
    holds (sendAll sendPacket ps s).1 (sendAll sendPacket ps s).2.mem held' ∧
    Outbox.Pushes (Answers s.2.nic.accept) (ps.map Packet.mbuf_pointer) (outbox held s.2)
      (outbox held' (sendAll sendPacket ps s).2) ∧
    (sendAll sendPacket ps s).2.nic.freed = s.2.nic.freed := by
  induction ps generalizing s held with
  | nil => exact ⟨held, h, Outbox.Pushes.nil _, rfl⟩
  | cons p ps ih =>
    obtain ⟨held₁, hholds, hstep⟩ := hpush s.1 s.2 held p h
    obtain ⟨held', hholds', hrest, hfreed'⟩ := ih (sendPacket s.1 p s.2) held₁ hholds
    rw [hstep.accept] at hrest
    exact ⟨held', hholds', Outbox.Pushes.cons hstep.push hrest, hfreed'.trans hstep.freed⟩

/-- The same for a sender that starts empty, with nothing sent or freed. -/
theorem sendAll_pushes_empty {s : σ × World} (h : holds s.1 s.2.mem [])
    (htx : s.2.nic.txBursts = []) (hfreed : s.2.nic.freed = []) (ps : List Packet) : ∃ held',
    holds (sendAll sendPacket ps s).1 (sendAll sendPacket ps s).2.mem held' ∧
    Outbox.Pushes (Answers s.2.nic.accept) (ps.map Packet.mbuf_pointer) ⟨[], []⟩
      (outbox held' (sendAll sendPacket ps s).2) ∧
    (sendAll sendPacket ps s).2.nic.freed = [] := by
  obtain ⟨held', hholds', hrun, hfreed'⟩ := sendAll_pushes hpush ps s [] h
  rw [outbox, htx] at hrun
  exact ⟨held', hholds', hrun, hfreed'.trans hfreed⟩

/-- What holds at the end of the calls, for a sender that starts empty. -/
theorem noLeak_iff_tookAll {s : σ × World} (h : holds s.1 s.2.mem [])
    (htx : s.2.nic.txBursts = []) (hfreed : s.2.nic.freed = [])
    {pending : σ → Memory 64 → List Mbuf}
    (hpending : ∀ s m held, holds s m held → pending s m = held) (ps : List Packet) :
    NoLeak ps (pending (sendAll sendPacket ps s).1 (sendAll sendPacket ps s).2.mem)
      (sendAll sendPacket ps s).2.nic ↔ (sendAll sendPacket ps s).2.nic.TookAll := by
  obtain ⟨held', hholds', hrun, hfreed'⟩ := sendAll_pushes_empty hpush h htx hfreed ps
  unfold NoLeak
  rw [hpending _ _ _ hholds', hfreed', List.append_nil]
  exact hrun.accounted_iff Answers.taken_le

/-- The bursts of a first part of the calls are among the bursts of all. -/
theorem tookAll_take {s : σ × World} (h : holds s.1 s.2.mem []) (ps : List Packet) (k : Nat)
    (hall : (sendAll sendPacket ps s).2.nic.TookAll) :
    (sendAll sendPacket (ps.take k) s).2.nic.TookAll := by
  obtain ⟨held₁, hholds₁, -, -⟩ := sendAll_pushes hpush (ps.take k) s [] h
  obtain ⟨held', -, hrest, -⟩ :=
    sendAll_pushes hpush (ps.drop k) (sendAll sendPacket (ps.take k) s) held₁ hholds₁
  rw [← sendAll_append, List.take_append_drop] at hrest
  intro d hd
  exact hall d (hrest.spec.2.2.subset hd)

/-- At every point of the run nothing is lost exactly when the NIC took every
    batch of the run whole. -/
theorem neverLeaks_iff_tookAll {s : σ × World} (h : holds s.1 s.2.mem [])
    (htx : s.2.nic.txBursts = []) (hfreed : s.2.nic.freed = [])
    {pending : σ → Memory 64 → List Mbuf}
    (hpending : ∀ s m held, holds s m held → pending s m = held) (ps : List Packet) :
    (∀ k ≤ ps.length, NoLeak (ps.take k)
      (pending (sendAll sendPacket (ps.take k) s).1 (sendAll sendPacket (ps.take k) s).2.mem)
      (sendAll sendPacket (ps.take k) s).2.nic) ↔ (sendAll sendPacket ps s).2.nic.TookAll := by
  constructor
  · -- the end of the run is enough: a batch once rejected stays lost
    intro hnever
    have hend := hnever ps.length le_rfl
    rw [List.take_length] at hend
    exact (noLeak_iff_tookAll hpush h htx hfreed hpending ps).mp hend
  · intro hall k _
    apply (noLeak_iff_tookAll hpush h htx hfreed hpending (ps.take k)).mpr
    exact tookAll_take hpush h ps k hall

/-- Whether the NIC took every batch whole, from the sizes of the batches. -/
theorem tookAll_iff_batchSizes {s : σ × World} (h : holds s.1 s.2.mem [])
    (htx : s.2.nic.txBursts = []) (hfreed : s.2.nic.freed = []) (ps : List Packet) :
    (sendAll sendPacket ps s).2.nic.TookAll ↔
      ∀ k n, (sendAll sendPacket ps s).2.nic.batchSizes[k]? = some n →
        (s.2.nic.accept k n).val = n := by
  obtain ⟨held', -, hrun, -⟩ := sendAll_pushes_empty hpush h htx hfreed ps
  exact Outbox.Legal.tookAll_iff (a := fun k n => s.2.nic.accept k n) hrun.spec_empty.2

/-- When the NIC takes nothing and the packets do not all fit in the list, some
    mbuf is nowhere. -/
theorem lost_of_rejected {s : σ × World} (h : holds s.1 s.2.mem [])
    (htx : s.2.nic.txBursts = []) (hfreed : s.2.nic.freed = [])
    (hreject : ∀ k n, (s.2.nic.accept k n).val = 0) {pending : σ → Memory 64 → List Mbuf}
    (hpending : ∀ s m held, holds s m held → pending s m = held) {ps : List Packet}
    (hroom : ∀ s m held, holds s m held → held.length < ps.length)
    (hnodup : (ps.map Packet.mbuf_pointer).Nodup) :
    ∃ m ∈ ps.map Packet.mbuf_pointer,
      m ∉ owned (sendAll sendPacket ps s).2.nic.txBursts ∧
      m ∉ (sendAll sendPacket ps s).2.nic.freed ∧
      m ∉ pending (sendAll sendPacket ps s).1 (sendAll sendPacket ps s).2.mem := by
  obtain ⟨held', hholds', hrun, hfreed'⟩ := sendAll_pushes_empty hpush h htx hfreed ps
  have hlen := hroom _ _ _ hholds'
  have howned : owned (sendAll sendPacket ps s).2.nic.txBursts = [] := by
    apply List.flatMap_eq_nil_iff.mpr
    intro d hd
    obtain ⟨k, hk⟩ := List.mem_iff_getElem?.mp hd
    rw [hrun.spec_empty.2 k d hk, hreject, List.take_zero]
  rw [hpending _ _ _ hholds', hfreed', howned]
  by_contra hcontra
  push Not at hcontra
  -- pairwise different mbufs that are all in the list fit in it
  have hsub : ps.map Packet.mbuf_pointer ⊆ held' :=
    fun m hm => hcontra m hm List.not_mem_nil List.not_mem_nil
  have hle := (List.subperm_of_subset hnodup hsub).length_le
  rw [List.length_map] at hle
  omega

end runs

theorem DpdkJava.PacketSender.new_holds (start : Addr) (w : World) :
    (DpdkJava.PacketSender.new start w).1.Holds (DpdkJava.PacketSender.new start w).2.mem [] :=
  ⟨DpdkJava.BurstList.new_buffers start w, by decide⟩

theorem DpdkJavaR.PacketSender.new_holds (start : Addr) (w : World) :
    (DpdkJavaR.PacketSender.new start w).1.Holds (DpdkJavaR.PacketSender.new start w).2.mem [] :=
  DpdkJavaR.BurstQueue.new_buffers start _

theorem DpdkJava.PacketSender.pending_of_holds (s : DpdkJava.PacketSender) (m : Memory 64)
    (held : List Mbuf) (h : s.Holds m held) : s.pending m = held :=
  h.1.pending_eq (by have := h.2; omega)

theorem DpdkJavaR.PacketSender.mbufs_of_holds (s : DpdkJavaR.PacketSender) (m : Memory 64)
    (held : List Mbuf) (h : s.Holds m held) : s.list.mbufs m = held :=
  h.list.mbufs_eq (by have := h.room; omega)

/-! ## Section 4: The sizes of the batches -/

theorem Nic.batchSizes_transmit (ms : List Mbuf) (nic : Nic) :
    (Nic.transmit ms nic).batchSizes = nic.batchSizes ++ [ms.length] := List.map_append

/-- **Run lemma**: the batches of a `DpdkJava` sender have the sizes that the
    clock gives them. -/
theorem DpdkJava.PacketSender.sendAll_batchSizes (ps : List Packet)
    (s : DpdkJava.PacketSender × World) (held : List Mbuf) (h : s.1.Holds s.2.mem held) :
    (sendAll sendPacket ps s).2.nic.batchSizes = s.2.nic.batchSizes ++
      batchSizesFrom s.2.clock.reading ps.length held.length s.1.past s.2.clock.ticks := by
  induction ps generalizing s held with
  | nil => exact (List.append_nil _).symm
  | cons p ps ih =>
    obtain ⟨s, w⟩ := s
    obtain ⟨hholds, hadd⟩ := sendPacket_spec h p
    refine (ih (s.sendPacket p w) _ hholds).trans ?_
    rw [hadd.nic, hadd.past, hadd.clock, List.length_cons, batchSizesFrom]
    have hfull_iff := DpdkJava.BurstList.full_iff h.1.burst h.2
    -- the two tests of the call, in the order in which it makes them
    by_cases hfull : s.Full held
    · have hflushes : s.Flushes w held := Or.inl hfull
      have hlen := hfull_iff.mp hfull
      rw [if_pos hlen]
      simp [hflushes, hfull, hlen, Nic.batchSizes_transmit, DpdkJava.BurstList.ticksTested]
    · rw [if_neg fun hlen => hfull (hfull_iff.mpr hlen)]
      by_cases hlate : (w.clock.reading w.clock.ticks - s.past).toInt ≥ MILLI_SECOND
      · have hflushes : s.Flushes w held := Or.inr hlate
        rw [if_pos hlate]
        simp [hflushes, hfull, Nic.batchSizes_transmit, DpdkJava.BurstList.ticksTested]
      · have hflushes : ¬ s.Flushes w held := fun hor => hor.elim hfull hlate
        rw [if_neg hlate]
        simp [hflushes, hfull, DpdkJava.BurstList.ticksTested]

-- a clock that moves on by 400 ms with each reading
example : DpdkJava.PacketSender.batchSizes (fun i => BitVec.ofNat 64 (400 * i)) 7 = [3, 3] := by
  decide

/-- **Run lemma**: the batches of a `DpdkJava-R` sender all have 16 mbufs. -/
theorem DpdkJavaR.PacketSender.sendAll_batchSizes (ps : List Packet)
    (s : DpdkJavaR.PacketSender × World) (held : List Mbuf) (h : s.1.Holds s.2.mem held) :
    (sendAll sendPacket ps s).2.nic.batchSizes = s.2.nic.batchSizes ++
      List.replicate ((held.length + ps.length) / 16) 16 := by
  induction ps generalizing s held with
  | nil =>
    have hnone : (held.length + 0) / 16 = 0 := Nat.div_eq_of_lt h.room
    rw [List.length_nil, hnone]
    exact (List.append_nil _).symm
  | cons p ps ih =>
    obtain ⟨s, w⟩ := s
    obtain ⟨hholds, hnic, -, -⟩ := DpdkJavaR.BurstQueue.add_spec nat_send_packets_drains h
      unrestricted p
    have hrest := ih (s.sendPacket p w) _ hholds
    have hnic' : (s.sendPacket p w).2.nic = _ := hnic
    rw [hnic'] at hrest
    refine hrest.trans ?_
    rw [List.length_cons]
    by_cases hfull : held.length + 1 = 16
    · have hone : (held.length + (ps.length + 1)) / 16 = ps.length / 16 + 1 := by omega
      simp [hfull, Nic.batchSizes_transmit, hone, List.replicate_succ]
    · have hsame : held.length + 1 + ps.length = held.length + (ps.length + 1) := by omega
      simp [hfull, hsame]

section main
variable (start : Addr) (mem : Memory 64) (accept : Nat → (n : Nat) → Fin (n + 1))
  (reading : Nat → JLong) (ps : List Packet)

/-- **Main**: in both versions, for every sequence of calls, every clock and
    every NIC, no mbuf is ever lost exactly when the NIC answers each batch
    with its size. -/
theorem neverLeaks_iff :
    (DpdkJava.PacketSender.NeverLeaks start ps (World.boot mem accept reading) ↔
      ∀ k n, (DpdkJava.PacketSender.batchSizes reading ps.length)[k]? = some n →
        (accept k n).val = n) ∧
    (DpdkJavaR.PacketSender.NeverLeaks start ps (World.boot mem accept reading) ↔
      ∀ k < ps.length / 16, (accept k 16).val = 16) := by
  constructor
  · have hholds := DpdkJava.PacketSender.new_holds start (World.boot mem accept reading)
    have hsizes := DpdkJava.PacketSender.sendAll_batchSizes ps _ [] hholds
    refine (neverLeaks_iff_tookAll DpdkJava.PacketSender.sendPacket_pushesOut hholds rfl rfl
      DpdkJava.PacketSender.pending_of_holds ps).trans ?_
    rw [tookAll_iff_batchSizes DpdkJava.PacketSender.sendPacket_pushesOut hholds rfl rfl, hsizes]
    exact Iff.rfl
  · have hholds := DpdkJavaR.PacketSender.new_holds start (World.boot mem accept reading)
    have hsizes := DpdkJavaR.PacketSender.sendAll_batchSizes ps _ [] hholds
    refine (neverLeaks_iff_tookAll DpdkJavaR.PacketSender.sendPacket_pushesOut hholds rfl rfl
      DpdkJavaR.PacketSender.mbufs_of_holds ps).trans ?_
    rw [tookAll_iff_batchSizes DpdkJavaR.PacketSender.sendPacket_pushesOut hholds rfl rfl, hsizes,
      List.length_nil, Nat.zero_add]
    -- without a clock all batches have 16 mbufs
    show (∀ k n, (List.replicate (ps.length / 16) 16)[k]? = some n → (accept k n).val = n) ↔ _
    constructor
    · intro hall k hk
      exact hall k 16 (List.getElem?_replicate_of_lt hk)
    · intro hall k n hn
      rw [List.getElem?_replicate] at hn
      split at hn
      · rw [← Option.some.inj hn]
        exact hall k ‹_›
      · exact absurd hn nofun

end main

/-- 32 different packets. -/
def samplePackets : List Packet :=
  (List.range 32).map fun i => ⟨BitVec.ofNat 64 (4096 + 64 * i), 0⟩

/-- A NIC whose transmit ring is full, and a clock that stands still. -/
def congested : World := World.boot (fun _ => 0) (fun _ _ => 0) (fun _ => 0)

theorem samplePackets_nodup : (samplePackets.map Packet.mbuf_pointer).Nodup := by
  decide +kernel

/-- With a full transmit ring, after 32 calls one of the mbufs is neither
    owned by the NIC, nor freed, nor in the list: in both versions. -/
theorem congested_loses_mbuf :
    (∃ m ∈ samplePackets.map Packet.mbuf_pointer,
      m ∉ owned (DpdkJava.PacketSender.sends 0 samplePackets congested).2.nic.txBursts ∧
      m ∉ (DpdkJava.PacketSender.sends 0 samplePackets congested).2.nic.freed ∧
      m ∉ (DpdkJava.PacketSender.sends 0 samplePackets congested).1.pending
        (DpdkJava.PacketSender.sends 0 samplePackets congested).2.mem) ∧
    (∃ m ∈ samplePackets.map Packet.mbuf_pointer,
      m ∉ owned (DpdkJavaR.PacketSender.sends 0 samplePackets congested).2.nic.txBursts ∧
      m ∉ (DpdkJavaR.PacketSender.sends 0 samplePackets congested).2.nic.freed ∧
      m ∉ (DpdkJavaR.PacketSender.sends 0 samplePackets congested).1.list.mbufs
        (DpdkJavaR.PacketSender.sends 0 samplePackets congested).2.mem) := by
  have hlen : samplePackets.length = 32 := by
    rw [samplePackets, List.length_map, List.length_range]
  have hnodup := samplePackets_nodup
  -- nothing else about the packets matters
  generalize samplePackets = ps at hlen hnodup
  constructor
  · refine lost_of_rejected DpdkJava.PacketSender.sendPacket_pushesOut
      (DpdkJava.PacketSender.new_holds 0 congested) rfl rfl (fun _ _ => rfl)
      DpdkJava.PacketSender.pending_of_holds ?_ hnodup
    intro s m held h
    exact hlen ▸ h.2
  · refine lost_of_rejected DpdkJavaR.PacketSender.sendPacket_pushesOut
      (DpdkJavaR.PacketSender.new_holds 0 congested) rfl rfl (fun _ _ => rfl)
      DpdkJavaR.PacketSender.mbufs_of_holds ?_ hnodup
    intro s m held h
    have hroom := h.room
    omega

end PacketPro
