import PacketPro.Dpdk.MbufFree

/-! # Reference Counts of Packet Buffers

    The steps of the other functions, and all interleavings.

    * **Counts** (`mbufs_counted`): in every interleaving each counter is the
      number of references, no mbuf is in its pool twice, or while there is a
      reference to it, and when all packets have been freed all mbufs are back.
    * **Clones** (`clone_shows_source`): a clone has the data of its source.

    Two things a run must not do (`Step.admits`): overflow a counter, which has
    16 bits, and clone a packet that has an indirect segment, such as a clone.
-/

open Transitions RefCounting

namespace PacketPro.Dpdk.Pktmbuf

section steps
variable {π : Type} {P : Pools π} {t t' : Thread π} {h h' : Heap} {m : Mbuf}

/-! ## Section 1: Stores to mbufs of one's own -/

/-- Stores to mbufs that no one else has. -/
theorem correct_store (hw : (books P).Within t h) (hheap : HeapInv P h)
    (hsame : SameBuffers h h') (hrefcnt : h'.refcnt = h.refcnt) (hpool : h'.pool = h.pool)
    (hqueued : h'.queued = h.queued)
    (hprivate : ∀ x, ¬ (books P).Private t h x → h'.mbuf x = h.mbuf x)
    (hrefs : segments t'.packets + t'.pc.refs = segments t.packets + t.pc.refs)
    (howned : t'.pc.owned = t.pc.owned) (hinv : t'.Inv h') :
    (books P).Correct Thread.Inv (HeapInv P) t h t' h' := by
  have hcount : ∀ r, (books P).count h' r = (books P).count h r := by
    intro r
    simp only [books, hrefcnt]
  have hguarantee : (books P).Guarantee t h h' := ⟨hprivate, fun r _ _ _ => hcount r⟩
  constructor
  · apply Books.Settles.move hcount
    · rw [hsame.stored hqueued]
      exact congrArg ((books P).stored h + ·) hrefs
    · simp only [books, hpool, howned]
  · exact hguarantee
  · exact hinv
  · exact hheap.keep hw hguarantee hsame hqueued fun x hx => Or.inl (hpool ▸ hx)

theorem packets_kept (hinv : t.Inv h)
    (hmbuf : ∀ x ∈ segments t.packets, (h'.mbuf x).next = (h.mbuf x).next) :
    ∀ p ∈ t.packets, p ≠ [] ∧ Chained h'.mbuf p := by
  intro p hp
  refine ⟨(hinv.packets p hp).1, (hinv.packets p hp).2.congr fun x hx => ?_⟩
  exact hmbuf x (mem_segments.mpr ⟨p, hp, hx⟩)

theorem correct_alloc {mi : Mbuf} (hw : (books P).Within t h) (hheap : HeapInv P h)
    (hmi : mi ∈ h.pool)
    (hrefs : segments t'.packets + t'.pc.refs = mi ::ₘ (segments t.packets + t.pc.refs))
    (howned : t'.pc.owned = t.pc.owned) (hinv : t'.Inv (h.alloc mi)) :
    (books P).Correct Thread.Inv (HeapInv P) t h t' (h.alloc mi) := by
  obtain ⟨hall, hzero, -⟩ := hw.of_vacant (Multiset.mem_add.mpr (Or.inl hmi))
  have hsame : SameBuffers h (h.alloc mi) := by
    have hreset : SameBuffers h (h.set mi (rte_pktmbuf_reset (h.mbuf mi))) :=
      SameBuffers.set ((Fields.indirect_of_no_flags rfl).trans (hheap.pool mi hmi).symm) rfl
    exact ⟨hreset.indirect, hreset.buf_addr⟩
  have hcount : ∀ r, r ≠ mi → (books P).count (h.alloc mi) r = (books P).count h r :=
    fun r hr => congrArg BitVec.toNat (Function.update_of_ne hr _ _)
  have hguarantee : (books P).Guarantee t h (h.alloc mi) := by
    refine ⟨fun r hr => ?_, fun r _ _ hr => hcount r fun heq => hr (heq ▸ hmi)⟩
    have hne : r ≠ mi := fun heq => hr (Or.inr (Or.inl (heq ▸ hmi)))
    exact Function.update_of_ne hne _ _
  constructor
  · apply Books.Settles.first hall hzero
    · exact congrArg BitVec.toNat (Function.update_self mi 1 h.refcnt)
    · exact hcount
    · rw [hsame.stored rfl]
      show (books P).stored h + (segments t'.packets + t'.pc.refs) = _
      rw [hrefs, Multiset.add_cons]
      rfl
    · show h.pool + t.pc.owned = mi ::ₘ (h.pool.erase mi + t'.pc.owned)
      rw [howned, ← Multiset.cons_add, Multiset.cons_erase hmi]
  · exact hguarantee
  · exact hinv
  · exact hheap.keep hw hguarantee hsame rfl fun x hx => Or.inl (Multiset.mem_of_mem_erase hx)

/-! ## Section 2: `rte_pktmbuf_clone` -/

theorem Fields.Shows.store {f source : Fields} (hf : f.Shows source) (next : Option Mbuf)
    (nb_segs : BitVec 8) (pkt_len : BitVec 32) :
    ({ f with next, nb_segs, pkt_len } : Fields).Shows source := by
  unfold Fields.Shows at hf ⊢
  rw [hf]

theorem shows_congr {mbuf mbuf' : Mbuf → Fields} {made : List Mbuf} {sources : List Fields}
    (hs : List.Forall₂ Fields.Shows (made.map mbuf) sources)
    (hkeep : ∀ x ∈ made, ∀ source, (mbuf x).Shows source → (mbuf' x).Shows source) :
    List.Forall₂ Fields.Shows (made.map mbuf') sources := by
  induction made generalizing sources with
  | nil => exact hs
  | cons x made ih =>
    cases hs with
    | cons hx hrest =>
      exact .cons (hkeep x (List.mem_cons_self ..) _ hx)
        (ih hrest fun y hy => hkeep y (List.mem_cons_of_mem x hy))

/-- The last element of a list without repetitions is not among the others. -/
theorem getLast_not_mem_dropLast {p : List Mbuf} (hlast : p.getLast? = some m)
    (honce : p.count m ≤ 1) : m ∉ p.dropLast := by
  obtain ⟨init, rfl⟩ := List.getLast?_eq_some_iff.mp hlast
  rw [List.count_append, List.count_singleton_self] at honce
  rw [List.dropLast_concat, ← List.count_eq_zero]
  omega

/-- What the end of the loop stores. -/
structure Finished (c : Clone π) (mc : Mbuf) (h h' : Heap) : Prop where
  refcnt : h'.refcnt = h.refcnt
  pool : h'.pool = h.pool
  queued : h'.queued = h.queued
  same : SameBuffers h h'
  others : ∀ x, x ∉ c.made → h'.mbuf x = h.mbuf x
  chained : Chained h'.mbuf c.made
  shows : ∀ x source, (h.mbuf x).Shows source → (h'.mbuf x).Shows source
  pkt_len : (h'.mbuf mc).pkt_len = c.pktlen
  nb_segs : (h'.mbuf mc).nb_segs = BitVec.ofNat 8 c.made.length

theorem finish_finished {c : Clone π} {mc : Mbuf} {tail : List Mbuf} (hmade : c.made = mc :: tail)
    (hlinked : Linked h.mbuf c.made) (honce : ∀ x, c.made.count x ≤ 1) :
    Finished c mc h (c.finish h) := by
  have hne : c.made ≠ [] := by rw [hmade]; exact List.cons_ne_nil mc tail
  have hlast := List.getLast?_eq_some_getLast hne
  generalize c.made.getLast hne = prev at hlast
  have hmc : mc ∈ c.made := by rw [hmade]; exact List.mem_cons_self ..
  have hprev : prev ∈ c.made := List.mem_of_getLast? hlast
  have hfinish : c.finish h = (h.setNext prev none).set mc { (h.setNext prev none).mbuf mc with
      nb_segs := BitVec.ofNat 8 c.made.length, pkt_len := c.pktlen } := by
    rw [Clone.finish, hlast, hmade]
    rfl
  have hnext : ∀ x, ((c.finish h).mbuf x).next = ((h.setNext prev none).mbuf x).next := by
    intro x
    rw [hfinish]
    by_cases hx : x = mc
    · rw [hx, Heap.set_self]
    · rw [Heap.set_of_ne _ _ hx]
  constructor
  · rw [hfinish]
    rfl
  · rw [hfinish]
    rfl
  · rw [hfinish]
    rfl
  · rw [hfinish]
    exact (SameBuffers.setNext none).trans (SameBuffers.set rfl rfl)
  · intro x hx
    have hxmc : x ≠ mc := fun heq => hx (heq ▸ hmc)
    have hxprev : x ≠ prev := fun heq => hx (heq ▸ hprev)
    rw [hfinish, Heap.set_of_ne _ _ hxmc]
    exact h.set_of_ne _ hxprev
  · rw [← List.append_nil c.made]
    apply Chained.append hlinked chained_nil hlast
    · rw [hnext, Heap.setNext, Heap.set_self]
      rfl
    · intro x hx
      have hxprev : x ≠ prev :=
        fun heq => getLast_not_mem_dropLast hlast (honce prev) (heq ▸ hx)
      rw [hnext, Heap.setNext, h.set_of_ne _ hxprev]
    · intro x hx
      exact absurd hx List.not_mem_nil
  · intro x source hx
    have hstep : ((h.setNext prev none).mbuf x).Shows source := by
      by_cases heq : x = prev
      · rw [heq] at hx ⊢
        rw [Heap.setNext, h.set_self]
        exact hx.store none (h.mbuf prev).nb_segs (h.mbuf prev).pkt_len
      · rw [Heap.setNext, h.set_of_ne _ heq]
        exact hx
    rw [hfinish]
    by_cases heq : x = mc
    · rw [heq] at hstep ⊢
      rw [Heap.set_self]
      exact hstep.store _ _ _
    · rw [Heap.set_of_ne _ _ heq]
      exact hstep
  · rw [hfinish, Heap.set_self]
  · rw [hfinish, Heap.set_self]

section clone
variable {c : Clone π} {copied : List Mbuf}

/-- The segments of the clone are this thread's, once. -/
theorem made_alone (hw : (books P).Within t h) (hrefs : ∀ x ∈ c.made, x ∈ t.pc.refs)
    (hown : ∀ x ∈ c.made, h.refcnt x = 1) {x : Mbuf} (hx : x ∈ c.made) :
    x ∉ segments t.packets ∧ t.pc.refs.count x = 1 ∧ (books P).Private t h x := by
  obtain ⟨hcount, hprivate⟩ := alone hw (Multiset.mem_add.mpr (Or.inr (hrefs x hx))) (hown x hx)
  have hpos := Multiset.count_pos.mpr (hrefs x hx)
  exact ⟨Multiset.count_eq_zero.mp (by omega), by omega, hprivate⟩

theorem made_once (hw : (books P).Within t h) (hrefs : t.pc.refs = (c.made : Multiset Mbuf))
    (hown : ∀ x ∈ c.made, h.refcnt x = 1) (x : Mbuf) : c.made.count x ≤ 1 := by
  by_cases hx : x ∈ c.made
  · have hcount := (made_alone hw (fun y hy => hrefs ▸ hy) hown hx).2.1
    rw [hrefs, Multiset.coe_count] at hcount
    omega
  · rw [List.count_eq_zero.mpr hx]
    exact Nat.zero_le 1

/-- The end of the loop, whatever becomes of the clone. -/
theorem correct_finish {mc : Mbuf} {tail : List Mbuf} (hw : (books P).Within t h)
    (hheap : HeapInv P h) (hmade : c.made = mc :: tail)
    (hrefs : t.pc.refs = (c.made : Multiset Mbuf)) (howned : t.pc.owned = 0)
    (hown : ∀ x ∈ c.made, h.refcnt x = 1) (hlinked : Linked h.mbuf c.made)
    (hrefs' : segments t'.packets + t'.pc.refs = segments t.packets + c.made)
    (howned' : t'.pc.owned = 0) (hinv : t'.Inv (c.finish h)) :
    (books P).Correct Thread.Inv (HeapInv P) t h t' (c.finish h) := by
  have hfinish := finish_finished hmade hlinked (made_once hw hrefs hown)
  apply correct_store hw hheap hfinish.same hfinish.refcnt hfinish.pool hfinish.queued
  · intro x hx
    apply hfinish.others
    intro hin
    exact hx (made_alone hw (fun y hy => hrefs ▸ hy) hown hin).2.2
  · rw [hrefs', hrefs]
  · rw [howned', howned]
  · exact hinv

/-- The packets of the thread are not among the segments of the clone. -/
theorem packets_finish {mc : Mbuf} {tail : List Mbuf} (hw : (books P).Within t h)
    (hinv : t.Inv h) (hmade : c.made = mc :: tail) (hrefs : t.pc.refs = (c.made : Multiset Mbuf))
    (hown : ∀ x ∈ c.made, h.refcnt x = 1) (hlinked : Linked h.mbuf c.made) :
    (∀ x ∈ segments t.packets, (c.finish h).mbuf x = h.mbuf x) ∧
      ∀ p ∈ t.packets, p ≠ [] ∧ Chained (c.finish h).mbuf p := by
  have hfinish := finish_finished hmade hlinked (made_once hw hrefs hown)
  have hkept : ∀ x ∈ segments t.packets, (c.finish h).mbuf x = h.mbuf x := by
    intro x hx
    apply hfinish.others
    intro hin
    exact (made_alone hw (fun y hy => hrefs ▸ hy) hown hin).1 hx
  exact ⟨hkept, packets_kept hinv fun x hx => by rw [hkept x hx]⟩

theorem correct_cloneAlloc {got : Option Mbuf} (hw : (books P).Within t h)
    (hpc : t.pc = .cloneAlloc c) (hinv : t.Inv h) (hheap : HeapInv P h)
    (hgot : ∀ mi, got = some mi → mi ∈ h.pool) :
    (books P).Correct Thread.Inv (HeapInv P) t h (t.advance P got h).1 (t.advance P got h).2 := by
  have hknows := hinv.knows
  rw [hpc] at hknows
  obtain ⟨copied, hp, hc⟩ := hknows
  have hrefs : t.pc.refs = (c.made : Multiset Mbuf) := by rw [hpc]; rfl
  have howned : t.pc.owned = 0 := by rw [hpc]; rfl
  unfold Thread.advance
  simp only [hpc]
  cases got with
  | some mi =>
    have hmi := hgot mi rfl
    have hnot := owned_not_ref hw (Multiset.mem_add.mpr (Or.inl hmi))
    rw [hrefs, Multiset.mem_add, not_or] at hnot
    have hmbuf : ∀ x, x ≠ mi → (h.alloc mi).mbuf x = h.mbuf x :=
      fun x hx => Function.update_of_ne hx _ _
    have hsource : ∀ x ∈ copied ++ c.md :: c.rest, (h.alloc mi).mbuf x = h.mbuf x :=
      fun x hx => hmbuf x fun heq => hnot.1 (mem_segments.mpr ⟨_, hp, heq ▸ hx⟩)
    have hmade : ∀ x ∈ c.made, x ≠ mi := fun x hx heq => hnot.2 (heq ▸ hx)
    have hclone : c.Inv (h.alloc mi) (copied ++ c.md :: c.rest) copied :=
      hc.congr rfl hsource (fun x hx => hmbuf x (hmade x hx))
        fun x hx => (Function.update_of_ne (hmade x hx) _ _).trans (hc.own x hx)
    -- `pktlen` is the one of the first segment of the source
    have hlen : ∀ x ∈ (copied ++ c.md :: c.rest).head?,
        (if c.made = [] then (h.mbuf c.md).pkt_len else c.pktlen) =
          ((h.alloc mi).mbuf x).pkt_len := by
      intro x hx
      by_cases hempty : c.made = []
      · have hcopied : copied = [] := by
          have hlength := hc.shows.length_eq
          rw [hempty, List.map_nil, List.length_nil, List.length_map] at hlength
          exact List.eq_nil_of_length_eq_zero hlength.symm
        rw [if_pos hempty, hsource x (List.mem_of_mem_head? hx)]
        rw [hcopied] at hx
        rw [show x = c.md from (Option.some.inj hx).symm]
      · rw [if_neg hempty]
        exact hclone.pktlen hempty x hx
    have hpackets : ∀ p ∈ t.packets, p ≠ [] ∧ Chained (h.alloc mi).mbuf p :=
      packets_kept hinv fun x hx => by rw [hmbuf x fun heq => hnot.1 (heq ▸ hx)]
    apply correct_alloc hw hheap hmi
    · rw [hrefs]
      simp only [Pc.refs, ← Multiset.coe_add, ← Multiset.singleton_add, Multiset.coe_singleton]
      abel
    · exact howned.symm
    · refine ⟨hpackets, copied, hp, ⟨hclone.direct, hclone.linked, hclone.own, hclone.shows,
        fun _ => hlen, hc.source⟩, ?_, ?_, hlen⟩
      · exact Function.update_self mi 1 h.refcnt
      · rw [Heap.Direct, Heap.alloc, Heap.set_self]
        exact Fields.indirect_of_no_flags rfl
  | none =>
    cases hmade : c.made with
    | nil =>
      simp only []
      apply correct_of_refs
      · rw [hrefs, hmade]
        simp [Thread.return, Pc.refs]
      · exact howned.symm
      · refine ⟨fun p hp => hinv.packets p ?_, trivial⟩
        simpa [Thread.return] using hp
      · exact hheap
    | cons mc tail =>
      have hfinish := finish_finished hmade hc.linked (made_once hw hrefs hc.own)
      have hpackets := (packets_finish hw hinv hmade hrefs hc.own hc.linked).2
      apply correct_finish hw hheap hmade hrefs howned hc.own hc.linked
      · rw [hmade]
        rfl
      · rfl
      · refine ⟨hpackets, ?_⟩
        have hchained := hfinish.chained
        rw [hmade] at hchained
        exact hchained

/-- The stores of one pass of the loop, in the new mbuf and in the one before. -/
structure Attached (c : Clone π) (mi prev : Mbuf) (h h' : Heap) : Prop where
  refcnt : h'.refcnt = (h.setRefcnt c.md (h.refcnt c.md + 1)).refcnt
  pool : h'.pool = h.pool
  queued : h'.queued = h.queued
  new : h'.mbuf mi = { rte_pktmbuf_attach (h.mbuf c.md) with next := (h'.mbuf mi).next }
  old : ∀ x, x ≠ mi → h'.mbuf x = { h.mbuf x with next := (h'.mbuf x).next }
  others : ∀ x, x ≠ mi → x ≠ prev → h'.mbuf x = h.mbuf x
  link : (h'.mbuf prev).next = some mi

theorem attach_attached (c : Clone π) (mi prev : Mbuf) (h : Heap) :
    Attached c mi prev h (((h.setRefcnt c.md (h.refcnt c.md + 1)).set mi
      (rte_pktmbuf_attach (h.mbuf c.md))).setNext prev (some mi)) := by
  refine ⟨rfl, rfl, rfl, ?_, ?_, ?_, ?_⟩
  · by_cases heq : mi = prev
    · subst heq
      rw [Heap.setNext, Heap.set_self, Heap.set_self]
    · rw [Heap.setNext, Heap.set_of_ne _ _ heq, Heap.set_self]
  · intro x hx
    by_cases heq : x = prev
    · subst heq
      rw [Heap.setNext, Heap.set_self, Heap.set_of_ne _ _ hx]
      rfl
    · rw [Heap.setNext, Heap.set_of_ne _ _ heq, Heap.set_of_ne _ _ hx]
      rfl
  · intro x hx heq
    rw [Heap.setNext, Heap.set_of_ne _ _ heq, Heap.set_of_ne _ _ hx]
    rfl
  · rw [Heap.setNext, Heap.set_self]

theorem Attached.stored {mi prev : Mbuf} (ha : Attached c mi prev h h') (hmi : mi ∈ P.all)
    (hmd : c.md ∈ P.all) (hmiDirect : h.Direct mi) (hmdDirect : h.Direct c.md)
    (hheap : HeapInv P h) : (books P).stored h' = c.md ::ₘ (books P).stored h := by
  have hset := attached_set (h := h) hmi (rte_pktmbuf_attach (h.mbuf c.md))
  have htarget : (rte_pktmbuf_attach (h.mbuf c.md)).target = {c.md} := by
    have haddr : RTE_MBUF_FROM_BADDR (h.mbuf c.md).buf_addr = c.md := by
      rw [hheap.buffer c.md hmd hmdDirect, from_to_baddr]
    rw [Fields.target, indirect_attach, if_pos rfl, rte_pktmbuf_attach, haddr]
  rw [Fields.target_of_direct hmiDirect, add_zero, htarget] at hset
  have hsum : ∑ x ∈ P.all, (h'.mbuf x).target =
      ∑ x ∈ P.all, ((h.set mi (rte_pktmbuf_attach (h.mbuf c.md))).mbuf x).target := by
    apply Finset.sum_congr rfl
    intro x _
    by_cases hx : x = mi
    · rw [hx, h.set_self, ha.new]
      rfl
    · rw [h.set_of_ne _ hx, ha.old x hx]
      rfl
  simp only [books, ha.queued]
  rw [hsum, hset, ← Multiset.singleton_add]
  abel

/-- No mbuf is attached to the new one, so it may be attached itself. -/
theorem Attached.heapInv {mi prev : Mbuf} (ha : Attached c mi prev h h') (hheap : HeapInv P h)
    (hw : (books P).Within t h) (hg : (books P).Guarantee t h h') (hmi : mi ∈ t.pc.refs)
    (hprivate : (books P).Private t h mi) (hmd : c.md ∈ P.all) (hne : c.md ≠ mi)
    (hmdDirect : h.Direct c.md) : HeapInv P h' := by
  have hdirect : ∀ x, x ≠ mi → (h'.Direct x ↔ h.Direct x) := by
    intro x hx
    rw [Heap.Direct, Heap.Direct, ha.old x hx]
    rfl
  have hindirect : ¬ h'.Direct mi := by
    rw [Heap.Direct, ha.new]
    intro hd
    exact Bool.noConfusion ((indirect_attach (h.mbuf c.md)).symm.trans hd)
  constructor
  · rw [ha.queued]
    exact queued_kept hheap hw hg
  · intro x hx hd
    have hxmi : x ≠ mi := fun heq => hindirect (heq ▸ hd)
    rw [ha.old x hxmi]
    exact hheap.buffer x hx ((hdirect x hxmi).mp hd)
  · intro x hx hd
    by_cases hxmi : x = mi
    · have haddr : (h'.mbuf mi).buf_addr = RTE_MBUF_TO_BADDR c.md := by
        rw [ha.new]
        exact hheap.buffer c.md hmd hmdDirect
      rw [hxmi, haddr, from_to_baddr, hdirect c.md hne]
      exact hmdDirect
    · rw [ha.old x hxmi]
      rw [hdirect x hxmi] at hd
      have htarget := hheap.attached x hx hd
      refine (hdirect _ fun heq => ?_).mpr htarget
      -- otherwise there is a reference to the new mbuf in `x`
      apply hw.not_stored hprivate
      apply Multiset.mem_add.mpr (Or.inr (Multiset.mem_sum.mpr ⟨x, hx, ?_⟩))
      rw [Heap.Direct, Bool.not_eq_false] at hd
      rw [Fields.target, hd, if_pos rfl, Multiset.mem_singleton]
      exact heq.symm
  · intro x hx
    rw [ha.pool] at hx
    have hxmi : x ≠ mi := by
      rintro rfl
      exact owned_not_ref hw (Multiset.mem_add.mpr (Or.inl hx)) (Multiset.mem_add.mpr (Or.inr hmi))
    exact (hdirect x hxmi).mpr (hheap.pool x hx)

/-- One more segment of the source has been cloned. -/
theorem Clone.Inv.attached {mi prev : Mbuf} (hc : c.Inv h (copied ++ c.md :: c.rest) copied)
    (ha : Attached c mi prev h h') (hprev : c.made.getLast?.getD mi = prev)
    (honce : ∀ x, (c.made ++ [mi]).count x ≤ 1)
    (hsource : ∀ x ∈ copied ++ c.md :: c.rest, h'.mbuf x = h.mbuf x)
    (hown : ∀ x ∈ c.made ++ [mi], h'.refcnt x = 1)
    (hlen : ∀ m ∈ (copied ++ c.md :: c.rest).head?, c.pktlen = (h.mbuf m).pkt_len) :
    ({ c with made := c.made ++ [mi] } : Clone π).Inv h' (copied ++ c.md :: c.rest)
      (copied ++ [c.md]) := by
  have hmiMade : mi ∉ c.made := by
    have hcount := honce mi
    rw [List.count_append, List.count_singleton_self] at hcount
    rw [← List.count_eq_zero]
    omega
  constructor
  · intro x hx
    rw [Heap.Direct, hsource x hx]
    exact hc.direct x hx
  · refine List.isChain_append.mpr ⟨hc.linked.congr ?_, List.isChain_singleton mi, ?_⟩
    · intro x hx
      have hxmi : x ≠ mi := fun heq => hmiMade (heq ▸ List.mem_of_mem_dropLast hx)
      refine congrArg Fields.next (ha.others x hxmi ?_)
      rintro rfl
      cases hlast : c.made.getLast? with
      | none =>
        rw [hlast] at hprev
        exact hxmi hprev.symm
      | some y =>
        rw [hlast] at hprev
        obtain rfl : y = x := hprev
        have hcount := honce y
        rw [List.count_append] at hcount
        exact getLast_not_mem_dropLast hlast (by omega) hx
    · intro x hx y hy
      obtain rfl : x = prev := by rw [← hprev, hx]; rfl
      obtain rfl : mi = y := Option.some.inj hy
      exact ha.link
  · exact hown
  · rw [List.map_append, List.map_append]
    apply List.rel_append
    · rw [List.map_congr_left fun x hx => hsource x (List.mem_append_left _ hx)]
      apply shows_congr hc.shows
      intro x hx source hshows
      rw [ha.old x fun heq => hmiMade (heq ▸ hx)]
      exact hshows.store _ (h.mbuf x).nb_segs (h.mbuf x).pkt_len
    · refine .cons ?_ .nil
      rw [hsource c.md (List.mem_append_right _ (List.mem_cons_self ..)), Fields.Shows, ha.new]
  · intro _ m hm
    rw [hsource m (List.mem_of_mem_head? hm)]
    exact hlen m hm
  · exact hc.source

theorem correct_cloneAttach {mi : Mbuf} (hw : (books P).Within t h)
    (hpc : t.pc = .cloneAttach c mi) (hinv : t.Inv h) (hheap : HeapInv P h)
    (hfits : (h.refcnt c.md).toNat + 1 < 2 ^ 16) (got : Option Mbuf) :
    (books P).Correct Thread.Inv (HeapInv P) t h (t.advance P got h).1 (t.advance P got h).2 := by
  have hknows := hinv.knows
  rw [hpc] at hknows
  obtain ⟨copied, hp, hc, hone, hmiDirect, hlen⟩ := hknows
  have hrefs : t.pc.refs = (c.made ++ [mi] : List Mbuf) := by rw [hpc]; rfl
  have howned : t.pc.owned = 0 := by rw [hpc]; rfl
  have hnew' : ∀ x ∈ c.made ++ [mi], h.refcnt x = 1 := by
    intro x hx
    rcases List.mem_append.mp hx with hin | hin
    · exact hc.own x hin
    · rw [List.mem_singleton.mp hin]
      exact hone
  -- the new mbufs are this thread's alone, and the source is not among them
  have hnew : ∀ x ∈ c.made ++ [mi], x ∉ segments t.packets ∧ t.pc.refs.count x = 1 ∧
      (books P).Private t h x := fun x hx =>
    made_alone (c := { c with made := c.made ++ [mi] }) hw (fun y hy => hrefs ▸ hy) hnew' hx
  have hmi : mi ∈ c.made ++ [mi] := List.mem_append_right _ (List.mem_singleton_self mi)
  have hsource : ∀ x ∈ copied ++ c.md :: c.rest, x ∈ segments t.packets :=
    fun x hx => mem_segments.mpr ⟨_, hp, hx⟩
  have hmdSource : c.md ∈ copied ++ c.md :: c.rest :=
    List.mem_append_right _ (List.mem_cons_self ..)
  obtain ⟨hmd, hpos⟩ := live hw (Multiset.mem_add.mpr (Or.inl (hsource _ hmdSource)))
  have hmiRef : mi ∈ t.pc.refs := by rw [hrefs]; exact hmi
  obtain ⟨hmiAll, -⟩ := live hw (Multiset.mem_add.mpr (Or.inr hmiRef))
  have hapart : ∀ x ∈ segments t.packets, x ∉ c.made ++ [mi] := fun x hx hin => (hnew x hin).1 hx
  have hne : c.md ≠ mi := fun heq => hapart _ (hsource _ hmdSource) (heq ▸ hmi)
  unfold Thread.advance
  simp only [hpc, Heap.setRefcnt_mbuf]
  generalize hprev : c.made.getLast?.getD mi = prev
  have hprevNew : prev ∈ c.made ++ [mi] := by
    rw [← hprev]
    cases hlast : c.made.getLast? with
    | none => exact hmi
    | some x => exact List.mem_append_left _ (List.mem_of_getLast? hlast)
  have ha := attach_attached c mi prev h
  generalize ((h.setRefcnt c.md (h.refcnt c.md + 1)).set mi
    (rte_pktmbuf_attach (h.mbuf c.md))).setNext prev (some mi) = h' at ha
  have hkept : ∀ x, x ∉ c.made ++ [mi] → h'.mbuf x = h.mbuf x := fun x hx =>
    ha.others x (fun heq => hx (heq ▸ hmi)) fun heq => hx (heq ▸ hprevNew)
  have hcount : ∀ x, x ≠ c.md → h'.refcnt x = h.refcnt x := by
    intro x hx
    rw [ha.refcnt]
    exact h.setRefcnt_of_ne _ hx
  have hguarantee : (books P).Guarantee t h h' := by
    refine ⟨fun r hr => hkept r fun hin => hr (hnew r hin).2.2, fun r hr _ _ => ?_⟩
    refine congrArg BitVec.toNat (hcount r fun heq => hr ?_)
    exact heq ▸ Multiset.mem_add.mpr (Or.inl (hsource _ hmdSource))
  have hmdDirect := hc.direct c.md hmdSource
  have hpackets : ∀ p ∈ t.packets, p ≠ [] ∧ Chained h'.mbuf p :=
    packets_kept hinv fun x hx => by rw [hkept x (hapart x hx)]
  have honce : ∀ x, (c.made ++ [mi]).count x ≤ 1 := by
    intro x
    by_cases hx : x ∈ c.made ++ [mi]
    · have hcount' := (hnew x hx).2.1
      rw [hrefs, Multiset.coe_count] at hcount'
      omega
    · rw [List.count_eq_zero.mpr hx]
      exact Nat.zero_le 1
  have hclone : ({ c with made := c.made ++ [mi] } : Clone π).Inv h' (copied ++ c.md :: c.rest)
      (copied ++ [c.md]) :=
    hc.attached ha hprev honce (fun x hx => hkept x (hapart x (hsource x hx)))
      (fun x hx => (hcount x fun heq => hapart _ (hsource _ hmdSource) (heq ▸ hx)).trans
        (hnew' x hx)) hlen
  constructor
  · apply Books.Settles.gain 1 hmd (Nat.pos_iff_ne_zero.mp hpos)
    · show (h'.refcnt c.md).toNat = (h.refcnt c.md).toNat + 1
      rw [ha.refcnt, h.setRefcnt_self, BitVec.toNat_add_of_lt hfits]
      rfl
    · exact fun r hr => congrArg BitVec.toNat (hcount r hr)
    · rw [ha.stored hmiAll hmd hmiDirect hmdDirect hheap, Multiset.replicate_one]
      show c.md ::ₘ _ + (segments t.packets + _) = _ + (segments t.packets + t.pc.refs) + _
      rw [hrefs, ← Multiset.singleton_add]
      simp only [Pc.refs]
      abel
    · show h'.pool + _ = h.pool + t.pc.owned
      rw [ha.pool, howned]
      rfl
  · exact hguarantee
  · refine ⟨hpackets, copied ++ [c.md], ?_, ?_, ?_⟩
    · rw [List.append_assoc]
      exact hp
    · rw [List.getLast?_append_of_ne_nil _ (List.cons_ne_nil _ _)]
      rfl
    · rw [List.append_assoc]
      exact hclone
  · exact ha.heapInv hheap hw hguarantee hmiRef (hnew mi hmi).2.2 hmd hne hmdDirect

/-- Where the loop is in the source decides whether it ends. -/
theorem next_cases {p behind : List Mbuf} (hchained : Chained h.mbuf p) (hp : p = copied ++ behind)
    (hlast : copied.getLast? = some m) :
    ((h.mbuf m).next = none ∧ behind = []) ∨
      ∃ x rest, (h.mbuf m).next = some x ∧ behind = x :: rest := by
  rw [hp] at hchained
  have hnext := hchained.next_of_append hlast
  cases behind with
  | nil => exact Or.inl ⟨hnext, rfl⟩
  | cons x rest => exact Or.inr ⟨x, rest, hnext, rfl⟩

theorem correct_cloneNext (hw : (books P).Within t h) (hpc : t.pc = .cloneNext c) (hinv : t.Inv h)
    (hheap : HeapInv P h) (got : Option Mbuf) :
    (books P).Correct Thread.Inv (HeapInv P) t h (t.advance P got h).1 (t.advance P got h).2 := by
  have hknows := hinv.knows
  rw [hpc] at hknows
  obtain ⟨copied, hp, hlast, hc⟩ := hknows
  have hrefs : t.pc.refs = (c.made : Multiset Mbuf) := by rw [hpc]; rfl
  have howned : t.pc.owned = 0 := by rw [hpc]; rfl
  unfold Thread.advance
  simp only [hpc]
  rcases next_cases (hinv.packets _ hp).2 rfl hlast with ⟨hnext, hrest⟩ | ⟨x, rest, hnext, hrest⟩
  · -- the clone is complete
    simp only [hnext]
    obtain ⟨mc, tail, hmade⟩ : ∃ mc tail, c.made = mc :: tail := by
      apply List.exists_cons_of_length_pos
      have hlength := hc.shows.length_eq
      rw [List.length_map, List.length_map] at hlength
      rw [hlength]
      exact List.length_pos_of_mem (List.mem_of_getLast? hlast)
    have hfinish := finish_finished hmade hc.linked (made_once hw hrefs hc.own)
    have hpackets := (packets_finish hw hinv hmade hrefs hc.own hc.linked).2
    apply correct_finish hw hheap hmade hrefs howned hc.own hc.linked
    · simp only [Thread.return, segments_add, segments_singleton, Pc.refs, add_zero]
      exact add_comm _ _
    · rfl
    · refine ⟨fun p hp => ?_, trivial⟩
      rcases Multiset.mem_add.mp hp with hnew | hold
      · rw [Multiset.mem_singleton.mp hnew]
        exact ⟨by rw [hmade]; exact List.cons_ne_nil mc tail, hfinish.chained⟩
      · exact hpackets p hold
  · simp only [hnext]
    apply correct_of_refs
    · rw [hrefs]
      rfl
    · exact howned.symm
    · rw [hrest] at hp hc ⊢
      exact ⟨hinv.packets, copied, hp, hc.direct, hc.linked, hc.own, hc.shows, hc.pktlen, hc.source⟩
    · exact hheap

end clone

/-! ## Section 3: `rte_pktmbuf_refcnt_update` -/

section update
variable {rest done : List Mbuf} {v : Nat}

theorem correct_updateAdd (hw : (books P).Within t h) (hpc : t.pc = .updateAdd m rest done v)
    (hinv : t.Inv h) (hheap : HeapInv P h) (hfits : (h.refcnt m).toNat + v < 2 ^ 16) :
    (books P).Correct Thread.Inv (HeapInv P) t h
      { t with pc := .updateNext m rest (done ++ [m]) v }
      (h.setRefcnt m (h.refcnt m + BitVec.ofNat 16 v)) := by
  have hp := hinv.knows
  rw [hpc] at hp
  have hm : m ∈ segments t.packets + t.pc.refs := by
    apply Multiset.mem_add.mpr (Or.inl (mem_segments.mpr ⟨_, hp, ?_⟩))
    exact List.mem_append_right _ (List.mem_cons_self ..)
  obtain ⟨hall, hpos⟩ := live hw hm
  constructor
  · apply Books.Settles.gain v hall (Nat.pos_iff_ne_zero.mp hpos)
    · have hv : (BitVec.ofNat 16 v).toNat = v := Nat.mod_eq_of_lt (by omega)
      show ((h.setRefcnt m _).refcnt m).toNat = (h.refcnt m).toNat + v
      rw [h.setRefcnt_self, BitVec.toNat_add_of_lt (by omega), hv]
    · exact fun r hr => congrArg BitVec.toNat (h.setRefcnt_of_ne _ hr)
    · simp only [books, hpc]
      simp only [Pc.refs, Heap.setRefcnt_queued, Heap.setRefcnt_mbuf, ← Multiset.coe_add,
        nsmul_add, Multiset.coe_singleton, Multiset.nsmul_singleton]
      abel
    · simp only [books, hpc]
      rfl
  · exact guarantee_setRefcnt hm _
  · refine ⟨hinv.packets, ?_, ?_⟩
    · show (done ++ [m]) ++ rest ∈ t.packets
      rw [List.append_assoc]
      exact hp
    · rw [List.getLast?_append_of_ne_nil _ (List.cons_ne_nil _ _)]
      rfl
  · exact hheap.setRefcnt m _

theorem correct_updateNext (hpc : t.pc = .updateNext m rest done v) (hinv : t.Inv h)
    (hheap : HeapInv P h) (got : Option Mbuf) :
    (books P).Correct Thread.Inv (HeapInv P) t h (t.advance P got h).1 (t.advance P got h).2 := by
  have hknows := hinv.knows
  rw [hpc] at hknows
  obtain ⟨hp, hlast⟩ := hknows
  unfold Thread.advance
  simp only [hpc]
  rcases next_cases (hinv.packets _ hp).2 rfl hlast with ⟨hnext, hrest⟩ | ⟨x, rest', hnext, hrest⟩
  · -- all segments have the references, so the thread has the packets
    simp only [hnext]
    rw [hrest, List.append_nil] at hp
    apply correct_of_refs
    · rw [hpc]
      simp only [Thread.return, segments_add, segments_replicate, Pc.refs]
      abel
    · rw [hpc]
      rfl
    · refine ⟨fun p hp' => ?_, trivial⟩
      rcases Multiset.mem_add.mp hp' with hnew | hold
      · rw [Multiset.eq_of_mem_replicate hnew]
        exact hinv.packets done hp
      · exact hinv.packets p hold
    · exact hheap
  · simp only [hnext]
    apply correct_of_refs
    · rw [hpc]
      rfl
    · rw [hpc]
      rfl
    · rw [hrest] at hp ⊢
      exact ⟨hinv.packets, hp⟩
    · exact hheap

end update

/-! ## Section 4: Between the calls -/

theorem correct_write {f : Fields} (hw : (books P).Within t h) (hpc : t.pc = .idle)
    (hinv : t.Inv h) (hheap : HeapInv P h) (hm : ∃ p ∈ t.packets, m ∈ p) (hone : h.refcnt m = 1)
    (hnext : f.next = (h.mbuf m).next) (haddr : f.buf_addr = (h.mbuf m).buf_addr)
    (hind : f.RTE_MBUF_INDIRECT = (h.mbuf m).RTE_MBUF_INDIRECT) :
    (books P).Correct Thread.Inv (HeapInv P) t h t (h.set m f) := by
  have hprivate := (alone hw (Multiset.mem_add.mpr (Or.inl (mem_segments.mpr hm))) hone).2
  apply correct_store hw hheap (SameBuffers.set hind haddr) rfl rfl rfl
  · intro x hx
    exact h.set_of_ne f fun heq => hx (heq ▸ hprivate)
  · rfl
  · rfl
  · refine ⟨packets_kept hinv fun x _ => ?_, by rw [hpc]; trivial⟩
    by_cases heq : x = m
    · rw [heq, h.set_self, hnext]
    · rw [h.set_of_ne f heq]

theorem correct_chain {p q : List Mbuf} {packets : Multiset (List Mbuf)}
    (hw : (books P).Within t h) (hpc : t.pc = .idle) (hinv : t.Inv h) (hheap : HeapInv P h)
    (hpackets : t.packets = p ::ₘ q ::ₘ packets) (hlast : p.getLast? = some m)
    (hone : h.refcnt m = 1) :
    (books P).Correct Thread.Inv (HeapInv P) t h ⟨(p ++ q) ::ₘ packets, .idle⟩
      (h.setNext m q.head?) := by
  have hmp : m ∈ p := List.mem_of_getLast? hlast
  have hp : p ∈ t.packets := by rw [hpackets]; exact Multiset.mem_cons_self ..
  have hq : q ∈ t.packets := by
    rw [hpackets]
    exact Multiset.mem_cons_of_mem (Multiset.mem_cons_self ..)
  obtain ⟨hcount, hprivate⟩ :=
    alone hw (Multiset.mem_add.mpr (Or.inl (mem_segments.mpr ⟨p, hp, hmp⟩))) hone
  -- the last segment of `p` is nowhere else
  rw [hpackets, segments_cons, segments_cons, Multiset.count_add, Multiset.count_add,
    Multiset.coe_count, Multiset.coe_count] at hcount
  have hpos := List.count_pos_iff.mpr hmp
  have hmq : m ∉ q := List.count_eq_zero.mp (by omega)
  have hmOthers : m ∉ segments packets := Multiset.count_eq_zero.mp (by omega)
  have hsame : ∀ x, x ≠ m → ((h.setNext m q.head?).mbuf x).next = (h.mbuf x).next := by
    intro x hx
    rw [Heap.setNext, h.set_of_ne _ hx]
  apply correct_store hw hheap (SameBuffers.setNext q.head?) rfl rfl rfl
  · intro x hx
    exact h.set_of_ne _ fun heq => hx (heq ▸ hprivate)
  · rw [hpackets, hpc]
    simp only [segments_cons, ← Multiset.coe_add, Pc.refs]
    abel
  · rw [hpc]
  · refine ⟨fun r hr => ?_, trivial⟩
    rcases Multiset.mem_cons.mp hr with rfl | hin
    · refine ⟨List.append_ne_nil_of_left_ne_nil (List.ne_nil_of_mem hmp) q, ?_⟩
      apply Chained.append (hinv.packets p hp).2.linked (hinv.packets q hq).2 hlast
      · rw [Heap.setNext, h.set_self]
      · intro x hx
        exact hsame x fun heq => getLast_not_mem_dropLast hlast (by omega) (heq ▸ hx)
      · intro x hx
        exact hsame x fun heq => hmq (heq ▸ hx)
    · have hold : r ∈ t.packets := by
        rw [hpackets]
        exact Multiset.mem_cons_of_mem (Multiset.mem_cons_of_mem hin)
      refine ⟨(hinv.packets r hold).1, (hinv.packets r hold).2.congr fun x hx => ?_⟩
      exact hsame x fun heq => hmOthers (mem_segments.mpr ⟨r, hin, heq ▸ hx⟩)

theorem correct_pass {p : List Mbuf} (hpc : t.pc = .idle) (hinv : t.Inv h) (hheap : HeapInv P h)
    (hp : p ∈ t.packets) :
    (books P).Correct Thread.Inv (HeapInv P) t h ⟨t.packets.erase p, .idle⟩
      { h with queued := p ::ₘ h.queued } := by
  constructor
  · apply Books.Settles.move
    · exact fun _ => rfl
    · have hsplit : segments t.packets = p + segments (t.packets.erase p) := by
        rw [← segments_cons, Multiset.cons_erase hp]
      simp only [books, hpc, hsplit, segments_cons]
      abel
    · simp only [books, hpc]
  · exact ⟨fun _ _ => rfl, fun _ _ _ _ => rfl⟩
  · exact ⟨fun r hr => hinv.packets r (Multiset.mem_of_mem_erase hr), trivial⟩
  · refine ⟨fun r hr => ?_, hheap.buffer, hheap.attached, hheap.pool⟩
    rcases Multiset.mem_cons.mp hr with rfl | hin
    · exact hinv.packets r hp
    · exact hheap.queued r hin

theorem correct_take {p : List Mbuf} (hpc : t.pc = .idle) (hinv : t.Inv h) (hheap : HeapInv P h)
    (hp : p ∈ h.queued) :
    (books P).Correct Thread.Inv (HeapInv P) t h (t.return {p})
      { h with queued := h.queued.erase p } := by
  constructor
  · apply Books.Settles.move
    · exact fun _ => rfl
    · have hsplit : segments h.queued = p + segments (h.queued.erase p) := by
        rw [← segments_cons, Multiset.cons_erase hp]
      simp only [books, hpc, hsplit, Thread.return, segments_add, segments_singleton]
      abel
    · simp only [books, hpc, Thread.return]
  · exact ⟨fun _ _ => rfl, fun _ _ _ _ => rfl⟩
  · refine ⟨fun r hr => ?_, trivial⟩
    rcases Multiset.mem_add.mp hr with hnew | hold
    · rw [Multiset.mem_singleton.mp hnew]
      exact hheap.queued p hp
    · exact hinv.packets r hold
  · exact ⟨fun r hr => hheap.queued r (Multiset.mem_of_mem_erase hr), hheap.buffer,
      hheap.attached, hheap.pool⟩

/-- **Step lemma** of the calls. -/
theorem correct_advance {got : Option Mbuf} (hw : (books P).Within t h) (hinv : t.Inv h)
    (hheap : HeapInv P h) (hadmits : (Step.advance got).admits t h)
    (hgot : ∀ c mi, t.pc = .cloneAlloc c → got = some mi → mi ∈ h.pool ∧ P.pool mi = c.mp) :
    (books P).Correct Thread.Inv (HeapInv P) t h (t.advance P got h).1 (t.advance P got h).2 := by
  cases hpc : t.pc with
  | idle =>
    simp only [Thread.advance, hpc]
    exact correct_of_refs rfl rfl hinv hheap
  | freeLoad m rest =>
    simp only [Thread.advance, hpc]
    exact correct_freeLoad hpc hinv hheap
  | freeRead m m_next rest =>
    have hread := correct_freeRead (P := P) hpc hinv hheap
    simp only [Thread.advance, hpc]
    split at hread <;> rename_i hone
    · simp only [hone, if_true]
      exact hread
    · simp only [hone, if_false]
      exact hread
  | freeLast m m_next rest =>
    have hknows := hinv.knows
    rw [hpc] at hknows
    simp only [Thread.advance, hpc]
    exact correct_freeOwn hw (by rw [hpc]; rfl) (by rw [hpc]; rfl) hknows.2.2 hknows.1
      hknows.2.1 hinv.packets hheap
  | freeDec m m_next rest => exact correct_freeDec hw hpc hinv hheap got
  | freeAttached m m_next rest md => exact correct_freeAttached hw hpc hinv hheap got
  | freeBuffer m m_next rest md =>
    simp only [Thread.advance, hpc]
    exact correct_freeBuffer hpc hinv hheap
  | freePut m m_next rest =>
    simp only [Thread.advance, hpc]
    exact correct_freePut hw hpc hinv hheap
  | cloneAlloc c =>
    exact correct_cloneAlloc hw hpc hinv hheap fun mi hmi => (hgot c mi hpc hmi).1
  | cloneAttach c mi =>
    simp only [Step.admits, hpc] at hadmits
    exact correct_cloneAttach hw hpc hinv hheap hadmits got
  | cloneNext c => exact correct_cloneNext hw hpc hinv hheap got
  | updateAdd m rest done v =>
    simp only [Step.admits, hpc] at hadmits
    simp only [Thread.advance, hpc]
    exact correct_updateAdd hw hpc hinv hheap hadmits
  | updateNext m rest done v => exact correct_updateNext hpc hinv hheap got

/-- **Step lemma**: every step of a thread keeps the books. -/
theorem correct_act {a : Step π} (hw : (books P).Within t h) (hinv : t.Inv h)
    (hheap : HeapInv P h) (hadmits : a.admits t h) (hact : a.act P t h t' h') :
    (books P).Correct Thread.Inv (HeapInv P) t h t' h' := by
  cases a with
  | alloc mp m =>
    obtain ⟨hpc, hm, -, rfl, rfl⟩ := hact
    have hnot := owned_not_ref hw (Multiset.mem_add.mpr (Or.inl hm))
    rw [hpc, Multiset.mem_add, not_or] at hnot
    apply correct_alloc hw hheap hm
    · rw [hpc]
      simp only [Thread.return, segments_add, segments_singleton, Pc.refs, ← Multiset.singleton_add,
        Multiset.coe_singleton]
      abel
    · rw [hpc]
      rfl
    · refine ⟨fun p hp => ?_, trivial⟩
      rcases Multiset.mem_add.mp hp with hnew | hold
      · rw [Multiset.mem_singleton.mp hnew]
        refine ⟨List.cons_ne_nil m [], chained_cons.mpr ⟨?_, chained_nil⟩⟩
        rw [Heap.alloc, Heap.set_self]
        rfl
      · refine packets_kept hinv (fun x hx => ?_) p hold
        have hne : x ≠ m := fun heq => hnot.1 (heq ▸ hx)
        exact congrArg Fields.next (Function.update_of_ne hne _ _)
  | write m f =>
    obtain ⟨hpc, hm, hone, hnext, haddr, hind, rfl, rfl⟩ := hact
    exact correct_write hw hpc hinv hheap hm hone hnext haddr hind
  | chain p q =>
    obtain ⟨hpc, packets, prev, hpackets, hlast, hone, rfl, rfl⟩ := hact
    exact correct_chain hw hpc hinv hheap hpackets hlast hone
  | pass p =>
    obtain ⟨hpc, hp, rfl, rfl⟩ := hact
    exact correct_pass hpc hinv hheap hp
  | take p =>
    obtain ⟨hpc, hp, rfl, rfl⟩ := hact
    exact correct_take hpc hinv hheap hp
  | free m rest =>
    obtain ⟨hpc, hp, rfl, rfl⟩ := hact
    apply correct_of_refs
    · have hsplit := congrArg segments (Multiset.cons_erase hp)
      rw [segments_cons] at hsplit
      rw [hpc, ← hsplit]
      simp only [Pc.refs]
      abel
    · rw [hpc]
      rfl
    · exact ⟨fun r hr => hinv.packets r (Multiset.mem_of_mem_erase hr), (hinv.packets _ hp).2⟩
    · exact hheap
  | clone md rest mp =>
    obtain ⟨hpc, hp, rfl, rfl⟩ := hact
    apply correct_of_refs
    · rw [hpc]
      rfl
    · rw [hpc]
      rfl
    · exact ⟨hinv.packets, [], hp, hadmits, List.isChain_nil,
        fun _ hm => absurd hm List.not_mem_nil, .nil, fun hne => absurd rfl hne, rfl⟩
    · exact hheap
  | update m rest v =>
    obtain ⟨hpc, hp, rfl, rfl⟩ := hact
    apply correct_of_refs
    · rw [hpc]
      simp only [Pc.refs, Multiset.coe_nil, nsmul_zero]
    · rw [hpc]
      rfl
    · exact ⟨hinv.packets, hp⟩
    · exact hheap
  | advance got =>
    obtain ⟨hgot, hstep⟩ := hact
    have hcorrect := correct_advance hw hinv hheap hadmits hgot
    rw [← hstep] at hcorrect
    exact hcorrect

end steps

/-! ## Section 5: Every interleaving -/

section system
variable {ι π : Type} [Fintype ι] (P : Pools π)

theorem contract :
    Contract (books P) (Step.act P) Step.admits Thread.Inv (HeapInv P) where
  step _ _ _ _ _ hw hinv hheap hadmits hact := correct_act hw hinv hheap hadmits hact
  stable _ _ _ hw hinv hrely := hinv.stable hw hrely

theorem initial_balanced : Balanced (books P) (initial P ι) := by
  have hstored : (books P).stored (initial P ι).heap = 0 := by
    simp only [books, initial, segments_zero, zero_add]
    apply Finset.sum_eq_zero
    intro x _
    exact Fields.target_of_direct (Fields.indirect_of_no_flags rfl)
  have hrefs : ∑ i, (books P).refs ((initial P ι).threads i) = 0 :=
    Finset.sum_eq_zero fun _ _ => rfl
  have howned : ∑ i, (books P).owned ((initial P ι).threads i) = 0 :=
    Finset.sum_eq_zero fun _ _ => rfl
  constructor
  · intro r
    rw [hstored, hrefs, add_zero, Multiset.count_zero, Books.due]
    split <;> rfl
  · intro r
    rw [howned, add_zero, Books.vacant]
    by_cases hr : r ∈ P.all
    · rw [if_pos ⟨hr, rfl⟩]
      exact Multiset.count_eq_one_of_mem P.all.nodup hr
    · rw [if_neg fun hv => hr hv.1]
      exact Multiset.count_eq_zero.mpr hr

variable {P} {s : State ι (Thread π) Heap}

variable [DecidableEq ι]

theorem invariant
    (hreach : ReachableWhile (pktmbufs P) (fun s a => a.2.admits (s.threads a.1) s.heap) s) :
    Balanced (books P) s ∧ (∀ i, (s.threads i).Inv s.heap) ∧ HeapInv P s.heap := by
  apply (contract P).invariant _ hreach
  rintro s rfl
  refine ⟨initial_balanced P,
    fun i => ⟨fun p hp => absurd hp (Multiset.notMem_zero p), trivial⟩, ?_⟩
  have hdirect : ∀ m, (initial P ι).heap.Direct m := fun m => Fields.indirect_of_no_flags rfl
  exact ⟨fun p hp => absurd hp (Multiset.notMem_zero p), fun m _ _ => rfl,
    fun m _ hm => absurd (hdirect m) hm, fun m _ => hdirect m⟩

end system

end PacketPro.Dpdk.Pktmbuf
