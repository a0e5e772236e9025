import PacketPro.Dpdk.Mbuf
import Mathlib.Tactic.Abel

/-! # Freeing Packets

    The steps of `rte_pktmbuf_free`, one lemma each: the counters change as the
    references do, only mbufs that no one else has are stored to, and what the
    call knows at the next point is true (`correct_…`). `Thread.Inv.stable` says
    that the steps of other threads cannot change what a call knows.

    `free_unshared` is the case of the programs in this repository, whose mbufs
    are never shared.
-/

open Transitions RefCounting

namespace PacketPro.Dpdk.Pktmbuf

/-! ## Section 1: Steps without stores -/

section steps
variable {π : Type} {P : Pools π} {t t' : Thread π} {h h' : Heap} {m : Mbuf}

theorem Fields.indirect_of_no_flags {f : Fields} (hf : f.ol_flags = 0) :
    f.RTE_MBUF_INDIRECT = false := by
  rw [Fields.RTE_MBUF_INDIRECT, hf]
  rfl

theorem indirect_attach (md : Fields) : (rte_pktmbuf_attach md).RTE_MBUF_INDIRECT = true := by
  have hbit : ((md.ol_flags ||| IND_ATTACHED_MBUF) &&& IND_ATTACHED_MBUF) = IND_ATTACHED_MBUF := by
    apply BitVec.eq_of_getLsbD_eq
    intro i hi
    rw [BitVec.getLsbD_and, BitVec.getLsbD_or]
    cases IND_ATTACHED_MBUF.getLsbD i <;> simp
  rw [Fields.RTE_MBUF_INDIRECT, rte_pktmbuf_attach, hbit]
  rfl

theorem from_to_baddr (m : Mbuf) : RTE_MBUF_FROM_BADDR (RTE_MBUF_TO_BADDR m) = m :=
  BitVec.add_sub_cancel m mbufSize

theorem Fields.target_of_direct {f : Fields} (hf : f.RTE_MBUF_INDIRECT = false) :
    f.target = 0 := by
  rw [Fields.target, hf]
  rfl

theorem Fields.target_congr {f g : Fields} (hind : f.RTE_MBUF_INDIRECT = g.RTE_MBUF_INDIRECT)
    (haddr : f.buf_addr = g.buf_addr) : f.target = g.target := by
  rw [Fields.target, Fields.target, hind, haddr]

/-- What is attached, after one mbuf has changed. -/
theorem attached_set (hm : m ∈ P.all) (f : Fields) :
    ∑ x ∈ P.all, ((h.set m f).mbuf x).target + (h.mbuf m).target =
      ∑ x ∈ P.all, (h.mbuf x).target + f.target := by
  rw [← Finset.add_sum_erase _ _ hm, ← Finset.add_sum_erase P.all (fun x => (h.mbuf x).target) hm]
  have hrest : ∑ x ∈ P.all.erase m, ((h.set m f).mbuf x).target =
      ∑ x ∈ P.all.erase m, (h.mbuf x).target := by
    apply Finset.sum_congr rfl
    intro x hx
    rw [h.set_of_ne f (Finset.ne_of_mem_erase hx)]
  rw [hrest, h.set_self]
  abel

/-- No mbuf is attached or detached. -/
structure SameBuffers (h h' : Heap) : Prop where
  indirect : ∀ x, (h'.mbuf x).RTE_MBUF_INDIRECT = (h.mbuf x).RTE_MBUF_INDIRECT
  buf_addr : ∀ x, (h'.mbuf x).buf_addr = (h.mbuf x).buf_addr

theorem SameBuffers.trans {h'' : Heap} (h₁ : SameBuffers h h') (h₂ : SameBuffers h' h'') :
    SameBuffers h h'' :=
  ⟨fun x => (h₂.indirect x).trans (h₁.indirect x), fun x => (h₂.buf_addr x).trans (h₁.buf_addr x)⟩

theorem SameBuffers.set {f : Fields} (hind : f.RTE_MBUF_INDIRECT = (h.mbuf m).RTE_MBUF_INDIRECT)
    (haddr : f.buf_addr = (h.mbuf m).buf_addr) : SameBuffers h (h.set m f) := by
  constructor <;> intro x <;> by_cases hx : x = m
  · rw [hx, h.set_self, hind]
  · rw [h.set_of_ne f hx]
  · rw [hx, h.set_self, haddr]
  · rw [h.set_of_ne f hx]

theorem SameBuffers.setNext (next : Option Mbuf) : SameBuffers h (h.setNext m next) :=
  SameBuffers.set rfl rfl

theorem SameBuffers.stored (hsame : SameBuffers h h') (hqueued : h'.queued = h.queued) :
    (books P).stored h' = (books P).stored h := by
  simp only [books, hqueued]
  congr 1
  apply Finset.sum_congr rfl
  intro x _
  exact Fields.target_congr (hsame.indirect x) (hsame.buf_addr x)

theorem toNat_refcnt_eq_one {c : BitVec 16} : c.toNat = 1 ↔ c = 1 := by
  rw [← BitVec.toNat_inj]
  rfl

theorem live (hw : (books P).Within t h) (hm : m ∈ segments t.packets + t.pc.refs) :
    m ∈ P.all ∧ 0 < (h.refcnt m).toNat := by
  obtain ⟨hall, hle⟩ := hw.mem_all_of_ref (Multiset.mem_add.mpr (Or.inr hm))
  have hpos := Multiset.count_pos.mpr hm
  exact ⟨hall, Nat.lt_of_lt_of_le hpos (Nat.le_trans (Nat.le_add_left _ _) hle)⟩

/-- A counter of one, and the reference is this thread's. -/
theorem alone (hw : (books P).Within t h) (hm : m ∈ segments t.packets + t.pc.refs)
    (hone : h.refcnt m = 1) :
    (segments t.packets).count m + t.pc.refs.count m = 1 ∧ (books P).Private t h m := by
  obtain ⟨-, hle⟩ := hw.mem_all_of_ref (Multiset.mem_add.mpr (Or.inr hm))
  have hpos := Multiset.count_pos.mpr hm
  have htoNat : (h.refcnt m).toNat = 1 := toNat_refcnt_eq_one.mpr hone
  have hcount : (segments t.packets + t.pc.refs).count m = 1 := by
    have hle' : _ + (segments t.packets + t.pc.refs).count m ≤ (h.refcnt m).toNat := hle
    omega
  refine ⟨by rw [← Multiset.count_add]; exact hcount, Or.inr (Or.inr ⟨hm, ?_⟩)⟩
  exact htoNat.trans hcount.symm

/-- A thread that has changed nothing but its own variables. -/
theorem correct_of_refs (hrefs : segments t'.packets + t'.pc.refs = segments t.packets + t.pc.refs)
    (howned : t'.pc.owned = t.pc.owned) (hinv : t'.Inv h) (hheap : HeapInv P h) :
    (books P).Correct Thread.Inv (HeapInv P) t h t' h where
  settles := by
    apply Books.Settles.move (fun _ => rfl)
    · exact congrArg ((books P).stored h + ·) hrefs
    · exact congrArg (h.pool + ·) howned
  guarantee := Books.Guarantee.refl
  inv := hinv
  heap := hheap

theorem Thread.freeNext_refs (m_next : Option Mbuf) (rest : List Mbuf)
    (hnext : m_next = rest.head?) :
    segments (t.freeNext m_next rest).packets + (t.freeNext m_next rest).pc.refs =
      segments t.packets + rest ∧ (t.freeNext m_next rest).pc.owned = 0 := by
  subst hnext
  cases rest with
  | nil => simp [Thread.freeNext, Thread.return, Pc.refs, Pc.owned]
  | cons x rest => simp [Thread.freeNext, Pc.refs, Pc.owned]

theorem Thread.freeNext_inv (m_next : Option Mbuf) (rest : List Mbuf)
    (hnext : m_next = rest.head?) (hrest : Chained h.mbuf rest)
    (hpackets : ∀ p ∈ t.packets, p ≠ [] ∧ Chained h.mbuf p) :
    (t.freeNext m_next rest).Inv h := by
  subst hnext
  cases rest with
  | nil =>
    refine ⟨fun p hp => hpackets p ?_, trivial⟩
    simpa [Thread.freeNext, Thread.return] using hp
  | cons x rest => exact ⟨hpackets, hrest⟩

theorem correct_freeLoad {rest : List Mbuf} (hpc : t.pc = .freeLoad m rest) (hinv : t.Inv h)
    (hheap : HeapInv P h) : (books P).Correct Thread.Inv (HeapInv P) t h
      { t with pc := .freeRead m (h.mbuf m).next rest } h := by
  have hknows := hinv.knows
  rw [hpc] at hknows
  refine correct_of_refs (by rw [hpc]; rfl) (by rw [hpc]; rfl) ⟨hinv.packets, ?_⟩ hheap
  exact chained_cons.mp hknows

theorem correct_freeRead {m_next : Option Mbuf} {rest : List Mbuf}
    (hpc : t.pc = .freeRead m m_next rest) (hinv : t.Inv h) (hheap : HeapInv P h) :
    (books P).Correct Thread.Inv (HeapInv P) t h
      (if h.refcnt m = 1 then { t with pc := .freeLast m m_next rest }
        else { t with pc := .freeDec m m_next rest }) h := by
  have hknows := hinv.knows
  rw [hpc] at hknows
  by_cases hone : h.refcnt m = 1
  · rw [if_pos hone]
    exact correct_of_refs (by rw [hpc]; rfl) (by rw [hpc]; rfl)
      ⟨hinv.packets, hknows.1, hknows.2, hone⟩ hheap
  · rw [if_neg hone]
    exact correct_of_refs (by rw [hpc]; rfl) (by rw [hpc]; rfl) ⟨hinv.packets, hknows⟩ hheap

/-! ## Section 2: `rte_pktmbuf_free` -/

theorem mem_stored {p : List Mbuf} (hp : p ∈ h.queued) {x : Mbuf} (hx : x ∈ p) :
    x ∈ (books P).stored h :=
  Multiset.mem_add.mpr (Or.inl (mem_segments.mpr ⟨p, hp, hx⟩))

theorem queued_kept (hheap : HeapInv P h) (hw : (books P).Within t h)
    (hg : (books P).Guarantee t h h') : ∀ p ∈ h.queued, p ≠ [] ∧ Chained h'.mbuf p := by
  intro p hp
  obtain ⟨hne, hchain⟩ := hheap.queued p hp
  refine ⟨hne, hchain.congr fun x hx => ?_⟩
  have hsame : h'.mbuf x = h.mbuf x := hg.stored hw (mem_stored hp hx)
  rw [hsame]

/-- What is attached stays attached. -/
theorem HeapInv.keep (hheap : HeapInv P h) (hw : (books P).Within t h)
    (hg : (books P).Guarantee t h h')
    (hsame : SameBuffers h h') (hqueued : h'.queued = h.queued)
    (hpool : ∀ m ∈ h'.pool, m ∈ h.pool ∨ h.Direct m) : HeapInv P h' := by
  have hdirect : ∀ x, h'.Direct x ↔ h.Direct x :=
    fun x => by rw [Heap.Direct, Heap.Direct, hsame.indirect x]
  constructor
  · rw [hqueued]
    exact queued_kept hheap hw hg
  · intro m hm hd
    rw [hsame.buf_addr m]
    exact hheap.buffer m hm ((hdirect m).mp hd)
  · intro m hm hd
    rw [hsame.buf_addr m, hdirect]
    exact hheap.attached m hm fun hd' => hd ((hdirect m).mpr hd')
  · intro m hm
    rw [hdirect]
    rcases hpool m hm with hin | hd
    · exact hheap.pool m hin
    · exact hd

theorem guarantee_setRefcnt (hm : m ∈ segments t.packets + t.pc.refs) (c : BitVec 16) :
    (books P).Guarantee t h (h.setRefcnt m c) := by
  refine ⟨fun _ _ => rfl, fun r hr _ _ => ?_⟩
  have hne : r ≠ m := fun heq => hr (heq ▸ hm)
  exact congrArg BitVec.toNat (h.setRefcnt_of_ne c hne)

theorem HeapInv.setRefcnt (hheap : HeapInv P h) (m : Mbuf) (c : BitVec 16) :
    HeapInv P (h.setRefcnt m c) :=
  ⟨hheap.queued, hheap.buffer, hheap.attached, hheap.pool⟩

section free
variable {m_next : Option Mbuf} {rest : List Mbuf}

/-- The last reference is given back. -/
theorem correct_freeOwn (hw : (books P).Within t h) (hrefs : t.pc.refs = (m :: rest : List Mbuf))
    (howned : t.pc.owned = 0) (hone : h.refcnt m = 1) (hnext : m_next = rest.head?)
    (hrest : Chained h.mbuf rest) (hpackets : ∀ p ∈ t.packets, p ≠ [] ∧ Chained h.mbuf p)
    (hheap : HeapInv P h) :
    (books P).Correct Thread.Inv (HeapInv P) t h (t.freeOwn P m m_next rest h).1
      (t.freeOwn P m m_next rest h).2 := by
  have hm : m ∈ segments t.packets + t.pc.refs := by
    rw [hrefs]
    exact Multiset.mem_add.mpr (Or.inr (Multiset.mem_coe.mpr (List.mem_cons_self ..)))
  obtain ⟨hall, -⟩ := live hw hm
  obtain ⟨hcount, hprivate⟩ := alone hw hm hone
  rw [hrefs, ← Multiset.cons_coe, Multiset.count_cons_self] at hcount
  have hnotRest : m ∉ rest := by
    rw [← Multiset.mem_coe, ← Multiset.count_eq_zero]
    omega
  have hnotPackets : m ∉ segments t.packets := by
    rw [← Multiset.count_eq_zero]
    omega
  have hothers : ∀ r, r ≠ m →
      ((h.setRefcnt m 0).refcnt r).toNat = (h.refcnt r).toNat :=
    fun r hr => congrArg BitVec.toNat (h.setRefcnt_of_ne 0 hr)
  unfold Thread.freeOwn
  by_cases hind : (h.mbuf m).RTE_MBUF_INDIRECT = true
  · -- an indirect mbuf is detached, and the thread has its reference
    simp only [Heap.setRefcnt_mbuf, hind, if_true]
    have hmd := hheap.attached m hall (by rw [Heap.Direct, hind]; exact Bool.noConfusion)
    generalize hfrom : RTE_MBUF_FROM_BADDR (h.mbuf m).buf_addr = md at hmd
    have hne : md ≠ m := by
      rintro rfl
      rw [Heap.Direct, hind] at hmd
      exact Bool.noConfusion hmd
    have htarget : (h.mbuf m).target = {md} := by rw [Fields.target, hind, hfrom]; rfl
    have hstored := attached_set (h := h.setRefcnt m 0) hall (rte_pktmbuf_detach P m (h.mbuf m))
    rw [Heap.setRefcnt_mbuf, htarget, Fields.target_of_direct (Fields.indirect_of_no_flags rfl),
      add_zero] at hstored
    have hsame : ∀ x, x ≠ m → ((h.setRefcnt m 0).set m (rte_pktmbuf_detach P m (h.mbuf m))).mbuf x =
        h.mbuf x := fun x hx => Heap.set_of_ne _ _ hx
    have hguarantee : (books P).Guarantee t h
        ((h.setRefcnt m 0).set m (rte_pktmbuf_detach P m (h.mbuf m))) := by
      refine ⟨fun r hr => hsame r fun heq => hr (heq ▸ hprivate), ?_⟩
      exact (guarantee_setRefcnt hm 0).count
    have hmDirect : ((h.setRefcnt m 0).set m (rte_pktmbuf_detach P m (h.mbuf m))).Direct m := by
      rw [Heap.Direct, Heap.set_self]
      exact Fields.indirect_of_no_flags rfl
    have hdirect : ∀ x, h.Direct x →
        ((h.setRefcnt m 0).set m (rte_pktmbuf_detach P m (h.mbuf m))).Direct x := by
      intro x hx
      by_cases heq : x = m
      · rw [heq]
        exact hmDirect
      · rw [Heap.Direct, hsame x heq]
        exact hx
    constructor
    · apply Books.Settles.last hall (toNat_refcnt_eq_one.mpr hone)
        (congrArg BitVec.toNat (h.setRefcnt_self m 0)) hothers
      · simp only [books, hrefs]
        rw [← hstored]
        simp only [Pc.refs, Heap.set_queued, Heap.setRefcnt_queued, ← Multiset.cons_coe,
          ← Multiset.singleton_add]
        abel
      · simp only [books, howned]
        simp only [Pc.owned, Heap.set_pool, Heap.setRefcnt_pool, ← Multiset.singleton_add]
        abel
    · exact hguarantee
    · refine ⟨fun p hp => ⟨(hpackets p hp).1, (hpackets p hp).2.congr fun x hx => ?_⟩, hnext,
        hrest.congr fun x hx => ?_, hmDirect, hdirect md hmd⟩
      · rw [hsame x fun heq => hnotPackets (mem_segments.mpr ⟨p, hp, heq ▸ hx⟩)]
      · rw [hsame x fun heq => hnotRest (heq ▸ hx)]
    · have hqueued := queued_kept hheap hw hguarantee
      refine ⟨hqueued, ?_, ?_, fun x hx => hdirect x (hheap.pool x hx)⟩
      · intro x hx hd
        by_cases heq : x = m
        · rw [heq, Heap.set_self]
          rfl
        · rw [hsame x heq]
          rw [Heap.Direct, hsame x heq] at hd
          exact hheap.buffer x hx hd
      · intro x hx hd
        have heq : x ≠ m := fun heq => hd (heq ▸ hmDirect)
        rw [hsame x heq]
        rw [Heap.Direct, hsame x heq] at hd
        exact hdirect _ (hheap.attached x hx hd)
  · rw [Bool.not_eq_true] at hind
    simp only [Heap.setRefcnt_mbuf, hind, Bool.false_eq_true, if_false]
    constructor
    · apply Books.Settles.last hall (toNat_refcnt_eq_one.mpr hone)
        (congrArg BitVec.toNat (h.setRefcnt_self m 0)) hothers
      · simp only [books, hrefs]
        simp only [Pc.refs, Heap.setRefcnt_queued, Heap.setRefcnt_mbuf, ← Multiset.cons_coe,
          ← Multiset.singleton_add]
        abel
      · simp only [books, howned]
        simp only [Pc.owned, Heap.setRefcnt_pool, ← Multiset.singleton_add]
        abel
    · exact guarantee_setRefcnt hm 0
    · exact ⟨hpackets, hnext, hrest, hind⟩
    · exact hheap.setRefcnt m 0

theorem sub_one_toNat {c : BitVec 16} (hpos : 0 < c.toNat) : (c - 1).toNat = c.toNat - 1 := by
  have hle : (1 : BitVec 16) ≤ c := BitVec.le_def.mpr hpos
  rw [BitVec.toNat_sub_of_le hle]
  rfl

/-- One reference less, and not the last one. -/
theorem settles_drop (hw : (books P).Within t h) (hm : m ∈ segments t.packets + t.pc.refs)
    (hne : h.refcnt m - 1 ≠ 0)
    (hrefs : segments t.packets + t.pc.refs = m ::ₘ (segments t'.packets + t'.pc.refs))
    (howned : t'.pc.owned = t.pc.owned) :
    (books P).Settles t h t' (h.setRefcnt m (h.refcnt m - 1)) := by
  obtain ⟨hall, hpos⟩ := live hw hm
  have hvalue : ((h.setRefcnt m (h.refcnt m - 1)).refcnt m).toNat = (h.refcnt m).toNat - 1 := by
    rw [h.setRefcnt_self, sub_one_toNat hpos]
  have hne' : ((h.setRefcnt m (h.refcnt m - 1)).refcnt m).toNat ≠ 0 := by
    rw [h.setRefcnt_self]
    exact fun hzero => hne (BitVec.eq_of_toNat_eq hzero)
  apply Books.Settles.drop hall hne'
  · show ((h.setRefcnt m (h.refcnt m - 1)).refcnt m).toNat + 1 = (h.refcnt m).toNat
    omega
  · exact fun r hr => congrArg BitVec.toNat (h.setRefcnt_of_ne _ hr)
  · show (books P).stored h + (segments t.packets + t.pc.refs) =
      m ::ₘ ((books P).stored h + (segments t'.packets + t'.pc.refs))
    rw [hrefs, Multiset.add_cons]
  · exact congrArg (h.pool + ·) howned

theorem correct_freeDec (hw : (books P).Within t h) (hpc : t.pc = .freeDec m m_next rest)
    (hinv : t.Inv h) (hheap : HeapInv P h) (got : Option Mbuf) :
    (books P).Correct Thread.Inv (HeapInv P) t h (t.advance P got h).1 (t.advance P got h).2 := by
  have hknows := hinv.knows
  rw [hpc] at hknows
  obtain ⟨hnext, hrest⟩ := hknows
  have hm : m ∈ segments t.packets + t.pc.refs := by
    rw [hpc]
    exact Multiset.mem_add.mpr (Or.inr (Multiset.mem_coe.mpr (List.mem_cons_self ..)))
  unfold Thread.advance
  simp only [hpc, Heap.setRefcnt_self]
  by_cases hzero : h.refcnt m - 1 = 0
  · -- the thread has become the last holder between the read and the update
    rw [if_pos hzero]
    have hown : t.freeOwn P m m_next rest (h.setRefcnt m (h.refcnt m - 1)) =
        t.freeOwn P m m_next rest h := by
      rw [Thread.freeOwn, Thread.freeOwn, Heap.setRefcnt_setRefcnt]
    rw [hown]
    refine correct_freeOwn hw (by rw [hpc]; rfl) (by rw [hpc]; rfl) ?_ hnext hrest hinv.packets
      hheap
    rw [← BitVec.sub_add_cancel (h.refcnt m) 1, hzero]
    rfl
  · rw [if_neg hzero]
    obtain ⟨hrefs, howned⟩ := Thread.freeNext_refs (t := t) m_next rest hnext
    constructor
    · apply settles_drop hw hm hzero
      · rw [hrefs, hpc]
        simp only [Pc.refs, ← Multiset.cons_coe, ← Multiset.singleton_add]
        abel
      · rw [howned, hpc]
        rfl
    · exact guarantee_setRefcnt hm _
    · exact Thread.freeNext_inv m_next rest hnext hrest hinv.packets
    · exact hheap.setRefcnt m _

theorem correct_freeAttached {md : Mbuf} (hw : (books P).Within t h)
    (hpc : t.pc = .freeAttached m m_next rest md) (hinv : t.Inv h) (hheap : HeapInv P h)
    (got : Option Mbuf) :
    (books P).Correct Thread.Inv (HeapInv P) t h (t.advance P got h).1 (t.advance P got h).2 := by
  have hknows := hinv.knows
  rw [hpc] at hknows
  obtain ⟨hnext, hrest, hmDirect, hmdDirect⟩ := hknows
  have hm : md ∈ segments t.packets + t.pc.refs := by
    rw [hpc]
    exact Multiset.mem_add.mpr (Or.inr (Multiset.mem_coe.mpr (List.mem_cons_self ..)))
  obtain ⟨hall, hpos⟩ := live hw hm
  unfold Thread.advance
  simp only [hpc, Heap.setRefcnt_self]
  by_cases hzero : h.refcnt md - 1 = 0
  · rw [if_pos hzero, hzero]
    have hone : (h.refcnt md).toNat = 1 := by
      have htoNat := congrArg BitVec.toNat hzero
      rw [sub_one_toNat hpos] at htoNat
      have hvalue : (0 : BitVec 16).toNat = 0 := rfl
      omega
    constructor
    · apply Books.Settles.last hall hone (congrArg BitVec.toNat (h.setRefcnt_self md 0))
        (fun r hr => congrArg BitVec.toNat (h.setRefcnt_of_ne 0 hr))
      · simp only [books, hpc]
        simp only [Pc.refs, Heap.setRefcnt_queued, Heap.setRefcnt_mbuf, ← Multiset.cons_coe,
          ← Multiset.singleton_add]
        abel
      · simp only [books, hpc]
        simp only [Pc.owned, Heap.setRefcnt_pool, Multiset.insert_eq_cons,
          ← Multiset.singleton_add]
        abel
    · exact guarantee_setRefcnt hm 0
    · exact ⟨hinv.packets, hnext, hrest, hmDirect, hmdDirect⟩
    · exact hheap.setRefcnt md 0
  · rw [if_neg hzero]
    constructor
    · apply settles_drop hw hm hzero
      · rw [hpc]
        simp only [Pc.refs, ← Multiset.cons_coe, ← Multiset.singleton_add]
        abel
      · rw [hpc]
        rfl
    · exact guarantee_setRefcnt hm _
    · exact ⟨hinv.packets, hnext, hrest, hmDirect⟩
    · exact hheap.setRefcnt md _

theorem correct_freeBuffer {md : Mbuf} (hpc : t.pc = .freeBuffer m m_next rest md)
    (hinv : t.Inv h) (hheap : HeapInv P h) :
    (books P).Correct Thread.Inv (HeapInv P) t h { t with pc := .freePut m m_next rest }
      (h.put md) := by
  have hknows := hinv.knows
  rw [hpc] at hknows
  obtain ⟨hnext, hrest, hmDirect, hmdDirect⟩ := hknows
  constructor
  · apply Books.Settles.move
    · exact fun _ => rfl
    · simp only [books, hpc]
      rfl
    · simp only [books, hpc]
      simp only [Pc.owned, Heap.put, Multiset.insert_eq_cons, ← Multiset.singleton_add]
      abel
  · exact ⟨fun _ _ => rfl, fun _ _ _ _ => rfl⟩
  · exact ⟨hinv.packets, hnext, hrest, hmDirect⟩
  · refine ⟨hheap.queued, hheap.buffer, hheap.attached, ?_⟩
    intro x hx
    rcases Multiset.mem_cons.mp hx with rfl | hin
    · exact hmdDirect
    · exact hheap.pool x hin

theorem owned_not_ref (hw : (books P).Within t h) (hm : m ∈ h.pool + t.pc.owned) :
    m ∉ segments t.packets + t.pc.refs := by
  intro href
  have hzero : (h.refcnt m).toNat = 0 := (hw.of_vacant hm).2.1
  have hpos := (live hw href).2
  omega

theorem correct_freePut (hw : (books P).Within t h) (hpc : t.pc = .freePut m m_next rest)
    (hinv : t.Inv h) (hheap : HeapInv P h) :
    (books P).Correct Thread.Inv (HeapInv P) t h (t.freeNext m_next rest)
      ((h.setNext m none).put m) := by
  have hknows := hinv.knows
  rw [hpc] at hknows
  obtain ⟨hnext, hrest, hmDirect⟩ := hknows
  have hown : m ∈ t.pc.owned := by
    rw [hpc]
    exact Multiset.mem_singleton_self m
  have hnot := owned_not_ref hw (Multiset.mem_add.mpr (Or.inr hown))
  rw [hpc, Multiset.mem_add, not_or] at hnot
  obtain ⟨hrefs, howned⟩ := Thread.freeNext_refs (t := t) m_next rest hnext
  have hstore : SameBuffers h (h.setNext m none) := SameBuffers.setNext none
  have hsame : SameBuffers h ((h.setNext m none).put m) := ⟨hstore.indirect, hstore.buf_addr⟩
  have hmbuf : ∀ x, x ≠ m → ((h.setNext m none).put m).mbuf x = h.mbuf x :=
    fun x hx => h.set_of_ne _ hx
  have hguarantee : (books P).Guarantee t h ((h.setNext m none).put m) :=
    ⟨fun r hr => hmbuf r fun heq => hr (Or.inl (heq ▸ hown)), fun _ _ _ _ => rfl⟩
  constructor
  · apply Books.Settles.move
    · exact fun _ => rfl
    · rw [hsame.stored rfl]
      simp only [books, hrefs]
      rw [hpc]
      rfl
    · simp only [books, howned]
      rw [hpc]
      simp only [Pc.owned, Heap.put, Heap.setNext, Heap.set_pool, ← Multiset.singleton_add]
      abel
  · exact hguarantee
  · apply Thread.freeNext_inv m_next rest hnext
    · apply hrest.congr
      intro x hx
      rw [hmbuf x fun heq => hnot.2 (heq ▸ hx)]
    · intro p hp
      refine ⟨(hinv.packets p hp).1, (hinv.packets p hp).2.congr fun x hx => ?_⟩
      rw [hmbuf x fun heq => hnot.1 (mem_segments.mpr ⟨p, hp, heq ▸ hx⟩)]
  · apply hheap.keep hw hguarantee hsame rfl
    intro x hx
    rcases Multiset.mem_cons.mp hx with rfl | hin
    · exact Or.inr hmDirect
    · exact Or.inl hin

end free

/-! ## Section 3: What others cannot change -/

theorem Clone.Inv.congr {c : Clone π} {p copied behind : List Mbuf} (hc : c.Inv h p copied)
    (hp : p = copied ++ behind) (hsource : ∀ m ∈ p, h'.mbuf m = h.mbuf m)
    (hmade : ∀ m ∈ c.made, h'.mbuf m = h.mbuf m) (hown : ∀ m ∈ c.made, h'.refcnt m = 1) :
    c.Inv h' p copied := by
  constructor
  · intro m hm
    rw [Heap.Direct, hsource m hm]
    exact hc.direct m hm
  · exact hc.linked.congr fun x hx => by rw [hmade x (List.mem_of_mem_dropLast hx)]
  · exact hown
  · rw [List.map_congr_left hmade, List.map_congr_left fun m hm => hsource m
      (hp ▸ List.mem_append_left behind hm)]
    exact hc.shows
  · intro hne m hm
    rw [hsource m (List.mem_of_mem_head? hm)]
    exact hc.pktlen hne m hm
  · exact hc.source

theorem Pc.Knows.congr {packets : Multiset (List Mbuf)} {pc : Pc π} (hk : pc.Knows h packets)
    (hmbuf : ∀ m ∈ segments packets + (pc.refs + pc.owned), h'.mbuf m = h.mbuf m)
    (hcount : ∀ m ∈ pc.refs, h.refcnt m = 1 → h'.refcnt m = 1) : pc.Knows h' packets := by
  have hrefs : ∀ m ∈ pc.refs, h'.mbuf m = h.mbuf m := fun m hm =>
    hmbuf m (Multiset.mem_add.mpr (Or.inr (Multiset.mem_add.mpr (Or.inl hm))))
  have howned : ∀ m ∈ pc.owned, h'.mbuf m = h.mbuf m := fun m hm =>
    hmbuf m (Multiset.mem_add.mpr (Or.inr (Multiset.mem_add.mpr (Or.inr hm))))
  have hpacket : ∀ p ∈ packets, ∀ m ∈ p, h'.mbuf m = h.mbuf m := fun p hp m hm =>
    hmbuf m (Multiset.mem_add.mpr (Or.inl (mem_segments.mpr ⟨p, hp, hm⟩)))
  have hchained : ∀ p : List Mbuf, (∀ m ∈ p, m ∈ pc.refs) → Chained h.mbuf p →
      Chained h'.mbuf p := fun p hp hc => hc.congr fun x hx => by rw [hrefs x (hp x hx)]
  cases pc with
  | idle => trivial
  | freeLoad m rest => exact hchained _ (fun x hx => hx) hk
  | freeRead m m_next rest =>
    exact ⟨hk.1, hchained _ (fun x hx => List.mem_cons_of_mem m hx) hk.2⟩
  | freeLast m m_next rest =>
    exact ⟨hk.1, hchained _ (fun x hx => List.mem_cons_of_mem m hx) hk.2.1,
      hcount m (List.mem_cons_self ..) hk.2.2⟩
  | freeDec m m_next rest =>
    exact ⟨hk.1, hchained _ (fun x hx => List.mem_cons_of_mem m hx) hk.2⟩
  | freeAttached m m_next rest md =>
    refine ⟨hk.1, hchained _ (fun x hx => List.mem_cons_of_mem md hx) hk.2.1, ?_, ?_⟩
    · rw [Heap.Direct, howned m (Multiset.mem_singleton_self m)]
      exact hk.2.2.1
    · rw [Heap.Direct, hrefs md (List.mem_cons_self ..)]
      exact hk.2.2.2
  | freeBuffer m m_next rest md =>
    refine ⟨hk.1, hchained _ (fun x hx => hx) hk.2.1, ?_, ?_⟩
    · rw [Heap.Direct, howned m (Multiset.mem_cons_self m {md})]
      exact hk.2.2.1
    · rw [Heap.Direct, howned md (Multiset.mem_cons_of_mem (Multiset.mem_singleton_self md))]
      exact hk.2.2.2
  | freePut m m_next rest =>
    refine ⟨hk.1, hchained _ (fun x hx => hx) hk.2.1, ?_⟩
    rw [Heap.Direct, howned m (Multiset.mem_singleton_self m)]
    exact hk.2.2
  | cloneAlloc c =>
    obtain ⟨copied, hp, hc⟩ := hk
    exact ⟨copied, hp, hc.congr rfl (hpacket _ hp) hrefs fun m hm => hcount m hm (hc.own m hm)⟩
  | cloneAttach c mi =>
    obtain ⟨copied, hp, hc, hone, hdirect, hlen⟩ := hk
    have hmi : mi ∈ (Pc.cloneAttach c mi).refs :=
      List.mem_append_right _ (List.mem_singleton_self mi)
    refine ⟨copied, hp, ?_, hcount mi hmi hone, ?_, ?_⟩
    · exact hc.congr rfl (hpacket _ hp) (fun m hm => hrefs m (List.mem_append_left _ hm))
        fun m hm => hcount m (List.mem_append_left _ hm) (hc.own m hm)
    · rw [Heap.Direct, hrefs mi hmi]
      exact hdirect
    · intro m hm
      rw [hpacket _ hp m (List.mem_of_mem_head? hm)]
      exact hlen m hm
  | cloneNext c =>
    obtain ⟨copied, hp, hlast, hc⟩ := hk
    exact ⟨copied, hp, hlast,
      hc.congr rfl (hpacket _ hp) hrefs fun m hm => hcount m hm (hc.own m hm)⟩
  | updateAdd m rest done v => exact hk
  | updateNext m rest done v => exact hk

/-- What a thread knows is about its own references. -/
theorem Thread.Inv.stable (hw : (books P).Within t h) (hinv : t.Inv h)
    (hrely : (books P).Rely t h h') : t.Inv h' := by
  have hmbuf : ∀ m ∈ segments t.packets + (t.pc.refs + t.pc.owned), h'.mbuf m = h.mbuf m := by
    intro m hm
    rw [← add_assoc] at hm
    exact hrely.contents m hm
  constructor
  · intro p hp
    refine ⟨(hinv.packets p hp).1, (hinv.packets p hp).2.congr fun x hx => ?_⟩
    rw [hmbuf x (Multiset.mem_add.mpr (Or.inl (mem_segments.mpr ⟨p, hp, hx⟩)))]
  · apply hinv.knows.congr hmbuf
    intro m hm hone
    have href : m ∈ segments t.packets + t.pc.refs := Multiset.mem_add.mpr (Or.inr hm)
    obtain ⟨hcount, -⟩ := alone hw href hone
    rw [← Multiset.count_add] at hcount
    have hsame : (h'.refcnt m).toNat = (h.refcnt m).toNat := hrely.count m href
      ((toNat_refcnt_eq_one.mpr hone).trans hcount.symm)
    rw [← toNat_refcnt_eq_one, hsame, toNat_refcnt_eq_one]
    exact hone

/-- An mbuf with one reference, no segment behind it and a buffer of its own goes
    back to its pool, and nothing else happens. -/
theorem free_unshared (packets : Multiset (List Mbuf)) (hone : h.refcnt m = 1)
    (hdirect : h.Direct m) (hnext : (h.mbuf m).next = none) :
    (fun x : Thread π × Heap => x.1.advance P none x.2)^[4] (⟨packets, .freeLoad m []⟩, h) =
      (⟨packets, .idle⟩, ((h.setRefcnt m 0).setNext m none).put m) := by
  have hind : (h.mbuf m).RTE_MBUF_INDIRECT = false := hdirect
  simp only [Function.iterate_succ, Function.iterate_zero, Function.comp_apply, id_eq,
    Thread.advance, hnext, hone, if_true, Thread.freeOwn, Heap.setRefcnt_mbuf, hind,
    Bool.false_eq_true, if_false, Thread.freeNext, Thread.return, zero_add]

end steps

end PacketPro.Dpdk.Pktmbuf
