import PacketPro.World
import PacketPro.Framework.RefCounting
import Mathlib.Data.Multiset.Bind

/-! # Packet Buffers

    A packet is a chain of mbufs, its segments. Several packets may share
    segments: `rte_pktmbuf_refcnt_update` makes more references to all segments
    of a packet, and `rte_pktmbuf_clone` makes a packet of new, indirect mbufs
    that are attached to the segments of another one. `rte_pktmbuf_free` gives
    back one reference to each segment, and puts a segment into its pool if that
    was the last one; for an indirect segment it also gives back the reference
    to the mbuf that it is attached to.

    Any number of threads call these functions at the same time. A step is one
    access to something that other threads may see, a counter, the pool or the
    `next` of a shared segment, with what the thread does in mbufs of its own
    up to the next such access.
-/

open Transitions RefCounting

namespace PacketPro.Dpdk.Pktmbuf

/-! ## Section 1: Definitions -/

/-- `sizeof(struct rte_mbuf)`: two cache lines. -/
def mbufSize : BitVec 64 := 128

def RTE_PKTMBUF_HEADROOM : BitVec 16 := 128

/-- Bit 62 of `ol_flags`: indirect attached mbuf. -/
def IND_ATTACHED_MBUF : BitVec 64 := BitVec.twoPow 64 62

/-- `struct rte_mbuf` without the counter, and without the fields that none of
    the functions below uses. -/
structure Fields where
  buf_addr : Addr
  buf_physaddr : BitVec 64
  buf_len : BitVec 16
  data_off : BitVec 16
  nb_segs : BitVec 8
  port : BitVec 8
  ol_flags : BitVec 64
  packet_type : BitVec 16
  data_len : BitVec 16
  pkt_len : BitVec 32
  vlan_tci : BitVec 16
  hash : BitVec 64
  next : Option Mbuf
  tx_offload : BitVec 64

def RTE_MBUF_FROM_BADDR (ba : Addr) : Mbuf := ba - mbufSize
def RTE_MBUF_TO_BADDR (mb : Mbuf) : Addr := mb + mbufSize

def Fields.RTE_MBUF_INDIRECT (f : Fields) : Bool := f.ol_flags &&& IND_ATTACHED_MBUF ≠ 0

/-- The mbufs, and the pool that each was allocated from (`pool`). -/
structure Pools (π : Type) where
  all : Finset Mbuf
  pool : Mbuf → π
  elt_size : π → BitVec 32
  virt2phy : Mbuf → BitVec 64

/-- The headroom that a buffer of this length has. -/
def headroom (buf_len : BitVec 16) : BitVec 16 :=
  if RTE_PKTMBUF_HEADROOM ≤ buf_len then RTE_PKTMBUF_HEADROOM else buf_len

def rte_pktmbuf_reset (m : Fields) : Fields :=
  { m with next := none, pkt_len := 0, tx_offload := 0, vlan_tci := 0, nb_segs := 1, port := 0xff
           ol_flags := 0, packet_type := 0, data_off := headroom m.buf_len, data_len := 0 }

/-- `rte_pktmbuf_attach` without the update of the counter of `md`. -/
def rte_pktmbuf_attach (md : Fields) : Fields :=
  { buf_physaddr := md.buf_physaddr, buf_addr := md.buf_addr, buf_len := md.buf_len
    data_off := md.data_off, data_len := md.data_len, port := md.port, vlan_tci := md.vlan_tci
    tx_offload := md.tx_offload, hash := md.hash, next := none
    pkt_len := md.data_len.setWidth 32, nb_segs := 1
    ol_flags := md.ol_flags ||| IND_ATTACHED_MBUF, packet_type := md.packet_type }

section pools
variable {π : Type} (P : Pools π)

def bufLen (m : Mbuf) : BitVec 16 :=
  (P.elt_size (P.pool m) - mbufSize.setWidth 32).setWidth 16

def rte_pktmbuf_detach (m : Mbuf) (f : Fields) : Fields :=
  { f with buf_physaddr := P.virt2phy m + mbufSize, buf_addr := RTE_MBUF_TO_BADDR m
           buf_len := bufLen P m, data_off := headroom (bufLen P m), data_len := 0, ol_flags := 0 }

/-- `rte_pktmbuf_init`, on zeroed memory. -/
def rte_pktmbuf_init (m : Mbuf) : Fields where
  buf_addr := m + mbufSize
  buf_physaddr := P.virt2phy m + mbufSize
  buf_len := bufLen P m
  data_off := headroom (bufLen P m)
  nb_segs := 1
  port := 0xff
  ol_flags := 0
  packet_type := 0
  data_len := 0
  pkt_len := 0
  vlan_tci := 0
  hash := 0
  next := none
  tx_offload := 0

end pools

/-- All mbufs, those that are in their pools, and the packets on their way from
    one thread to another, each as the list of its segments. -/
structure Heap where
  refcnt : Mbuf → BitVec 16
  mbuf : Mbuf → Fields
  pool : Multiset Mbuf
  queued : Multiset (List Mbuf)

namespace Heap

/-- `rte_mbuf_refcnt_set`, and the store of `rte_mbuf_refcnt_update`. -/
def setRefcnt (h : Heap) (m : Mbuf) (c : BitVec 16) : Heap :=
  { h with refcnt := Function.update h.refcnt m c }

def set (h : Heap) (m : Mbuf) (f : Fields) : Heap := { h with mbuf := Function.update h.mbuf m f }

def setNext (h : Heap) (m : Mbuf) (next : Option Mbuf) : Heap :=
  h.set m { h.mbuf m with next }

/-- `__rte_mbuf_raw_free`. -/
def put (h : Heap) (m : Mbuf) : Heap := { h with pool := m ::ₘ h.pool }

/-- `rte_pktmbuf_alloc`, when `rte_mempool_get` has returned `m`. -/
def alloc (h : Heap) (m : Mbuf) : Heap :=
  ({ h with pool := h.pool.erase m }.setRefcnt m 1).set m (rte_pktmbuf_reset (h.mbuf m))

section fields
variable (h : Heap) (m x : Mbuf) (c : BitVec 16) (f : Fields) (next : Option Mbuf)

@[simp] theorem setRefcnt_self : (h.setRefcnt m c).refcnt m = c := Function.update_self _ _ _
@[simp] theorem setRefcnt_setRefcnt (c' : BitVec 16) :
    (h.setRefcnt m c).setRefcnt m c' = h.setRefcnt m c' := by
  rw [setRefcnt, setRefcnt, Function.update_idem, setRefcnt]
@[simp] theorem setRefcnt_mbuf : (h.setRefcnt m c).mbuf = h.mbuf := rfl
@[simp] theorem setRefcnt_pool : (h.setRefcnt m c).pool = h.pool := rfl
@[simp] theorem setRefcnt_queued : (h.setRefcnt m c).queued = h.queued := rfl
@[simp] theorem set_self : (h.set m f).mbuf m = f := Function.update_self _ _ _
@[simp] theorem set_pool : (h.set m f).pool = h.pool := rfl
@[simp] theorem set_queued : (h.set m f).queued = h.queued := rfl

variable {m x}

theorem setRefcnt_of_ne (hne : x ≠ m) : (h.setRefcnt m c).refcnt x = h.refcnt x :=
  Function.update_of_ne hne _ _

theorem set_of_ne (hne : x ≠ m) : (h.set m f).mbuf x = h.mbuf x := Function.update_of_ne hne _ _

end fields

end Heap

/-- `rte_pktmbuf_clone` in its loop: the packet it clones, `md` with the segments
    behind it, and the segments of the clone so far. The first of these is `mc`,
    and `prev` points to the `next` of the last. -/
structure Clone (π : Type) where
  source : List Mbuf
  md : Mbuf
  rest : List Mbuf
  mp : π
  pktlen : BitVec 32
  made : List Mbuf

/-- Where a thread is in a call. The segments behind the current one (`rest`)
    and before it (`done`) are not variables of the source. -/
inductive Pc (π : Type) where
  | idle
  /-- `m_next = m->next` -/
  | freeLoad (m : Mbuf) (rest : List Mbuf)
  /-- `rte_mbuf_refcnt_read(m) == 1` -/
  | freeRead (m : Mbuf) (m_next : Option Mbuf) (rest : List Mbuf)
  /-- It was; `rte_mbuf_refcnt_set(m, 0)`. -/
  | freeLast (m : Mbuf) (m_next : Option Mbuf) (rest : List Mbuf)
  /-- It was not; `rte_mbuf_refcnt_update(m, -1) == 0`. -/
  | freeDec (m : Mbuf) (m_next : Option Mbuf) (rest : List Mbuf)
  /-- `m` is detached from `md`; `rte_mbuf_refcnt_update(md, -1) == 0`. -/
  | freeAttached (m : Mbuf) (m_next : Option Mbuf) (rest : List Mbuf) (md : Mbuf)
  /-- `__rte_mbuf_raw_free(md)` -/
  | freeBuffer (m : Mbuf) (m_next : Option Mbuf) (rest : List Mbuf) (md : Mbuf)
  /-- `__rte_mbuf_raw_free(m)` -/
  | freePut (m : Mbuf) (m_next : Option Mbuf) (rest : List Mbuf)
  /-- `rte_pktmbuf_alloc(mp)` -/
  | cloneAlloc (c : Clone π)
  /-- `rte_pktmbuf_attach(mi, md)` -/
  | cloneAttach (c : Clone π) (mi : Mbuf)
  /-- `md = md->next` -/
  | cloneNext (c : Clone π)
  /-- `rte_mbuf_refcnt_update(m, v)` -/
  | updateAdd (m : Mbuf) (rest done : List Mbuf) (v : Nat)
  /-- `m = m->next` -/
  | updateNext (m : Mbuf) (rest done : List Mbuf) (v : Nat)

/-- A thread, and the packets that it has: each as often as it is to be freed. -/
structure Thread (π : Type) where
  packets : Multiset (List Mbuf)
  pc : Pc π

section steps
variable {π : Type}

/-- The call returns, and the thread has these packets more. -/
def Thread.return (t : Thread π) (made : Multiset (List Mbuf)) : Thread π :=
  ⟨made + t.packets, .idle⟩

/-- `m = m_next` and the test of the loop of `rte_pktmbuf_free`. -/
def Thread.freeNext (t : Thread π) (m_next : Option Mbuf) (rest : List Mbuf) : Thread π :=
  match m_next with
  | none => t.return 0
  | some m => { t with pc := .freeLoad m rest.tail }

/-- The rest of `__rte_pktmbuf_prefree_seg` for the last reference: the counter
    is zero, and an indirect mbuf is detached. -/
def Thread.freeOwn (P : Pools π) (t : Thread π) (m : Mbuf) (m_next : Option Mbuf)
    (rest : List Mbuf) (h : Heap) : Thread π × Heap :=
  let h := h.setRefcnt m 0
  if (h.mbuf m).RTE_MBUF_INDIRECT then
    let md := RTE_MBUF_FROM_BADDR (h.mbuf m).buf_addr
    ({ t with pc := .freeAttached m m_next rest md }, h.set m (rte_pktmbuf_detach P m (h.mbuf m)))
  else
    ({ t with pc := .freePut m m_next rest }, h)

/-- `*prev = NULL`, and the two fields of `mc`. -/
def Clone.finish (c : Clone π) (h : Heap) : Heap :=
  match c.made.head?, c.made.getLast? with
  | some mc, some prev =>
    let h := h.setNext prev none
    h.set mc { h.mbuf mc with nb_segs := BitVec.ofNat 8 c.made.length, pkt_len := c.pktlen }
  | _, _ => h

/-- The next step of a call; `got` is what `rte_mempool_get` returns, where the
    step asks for an mbuf. -/
def Thread.advance (P : Pools π) (got : Option Mbuf) (t : Thread π) (h : Heap) :
    Thread π × Heap :=
  match t.pc with
  | .idle => (t, h)
  | .freeLoad m rest => ({ t with pc := .freeRead m (h.mbuf m).next rest }, h)
  | .freeRead m m_next rest =>
    if h.refcnt m = 1 then ({ t with pc := .freeLast m m_next rest }, h)
    else ({ t with pc := .freeDec m m_next rest }, h)
  | .freeLast m m_next rest => t.freeOwn P m m_next rest h
  | .freeDec m m_next rest =>
    let h := h.setRefcnt m (h.refcnt m - 1)
    if h.refcnt m = 0 then t.freeOwn P m m_next rest h else (t.freeNext m_next rest, h)
  | .freeAttached m m_next rest md =>
    let h := h.setRefcnt md (h.refcnt md - 1)
    if h.refcnt md = 0 then ({ t with pc := .freeBuffer m m_next rest md }, h)
    else ({ t with pc := .freePut m m_next rest }, h)
  | .freeBuffer m m_next rest md => ({ t with pc := .freePut m m_next rest }, h.put md)
  | .freePut m m_next rest => (t.freeNext m_next rest, (h.setNext m none).put m)
  | .cloneAlloc c =>
    match got, c.made with
    | some mi, made =>
      let pktlen := if made = [] then (h.mbuf c.md).pkt_len else c.pktlen
      ({ t with pc := .cloneAttach { c with pktlen } mi }, h.alloc mi)
    | none, [] => (t.return 0, h)
    | none, mc :: made => ({ t with pc := .freeLoad mc made }, c.finish h)
  | .cloneAttach c mi =>
    let h := h.setRefcnt c.md (h.refcnt c.md + 1)
    let h := h.set mi (rte_pktmbuf_attach (h.mbuf c.md))
    let h := h.setNext (c.made.getLast?.getD mi) (some mi)
    ({ t with pc := .cloneNext { c with made := c.made ++ [mi] } }, h)
  | .cloneNext c =>
    match (h.mbuf c.md).next with
    | some md => ({ t with pc := .cloneAlloc { c with md, rest := c.rest.tail } }, h)
    | none => (t.return {c.made}, c.finish h)
  | .updateAdd m rest done v =>
    ({ t with pc := .updateNext m rest (done ++ [m]) v },
      h.setRefcnt m (h.refcnt m + BitVec.ofNat 16 v))
  | .updateNext m rest done v =>
    match (h.mbuf m).next with
    | some m' => ({ t with pc := .updateAdd m' rest.tail done v }, h)
    | none => (t.return (Multiset.replicate v done), h)

/-- What a thread can do. -/
inductive Step (π : Type) where
  /-- `rte_pktmbuf_alloc(mp)` returns `m`. -/
  | alloc (mp : π) (m : Mbuf)
  /-- A driver, or a program, writes to an mbuf that no one else has. -/
  | write (m : Mbuf) (f : Fields)
  /-- It makes one packet of two: the last segment of the first is followed by
      the first one of the second. -/
  | chain (p q : List Mbuf)
  /-- It passes a packet on, through a ring. -/
  | pass (p : List Mbuf)
  | take (p : List Mbuf)
  /-- A call of `rte_pktmbuf_free`. -/
  | free (m : Mbuf) (rest : List Mbuf)
  /-- A call of `rte_pktmbuf_clone`. -/
  | clone (md : Mbuf) (rest : List Mbuf) (mp : π)
  /-- A call of `rte_pktmbuf_refcnt_update`, for more references. -/
  | update (m : Mbuf) (rest : List Mbuf) (v : Nat)
  /-- The next step of the call. -/
  | advance (got : Option Mbuf)

def Step.act (P : Pools π) : Step π → Thread π → Heap → Thread π → Heap → Prop
  | .alloc mp m, t, h, t', h' =>
    t.pc = .idle ∧ m ∈ h.pool ∧ P.pool m = mp ∧ t' = t.return {[m]} ∧ h' = h.alloc m
  | .write m f, t, h, t', h' =>
    t.pc = .idle ∧ (∃ p ∈ t.packets, m ∈ p) ∧ h.refcnt m = 1 ∧ f.next = (h.mbuf m).next ∧
      f.buf_addr = (h.mbuf m).buf_addr ∧ f.RTE_MBUF_INDIRECT = (h.mbuf m).RTE_MBUF_INDIRECT ∧
      t' = t ∧ h' = h.set m f
  | .chain p q, t, h, t', h' =>
    t.pc = .idle ∧ ∃ packets prev, t.packets = p ::ₘ q ::ₘ packets ∧ p.getLast? = some prev ∧
      h.refcnt prev = 1 ∧ t' = ⟨(p ++ q) ::ₘ packets, .idle⟩ ∧ h' = h.setNext prev q.head?
  | .pass p, t, h, t', h' =>
    t.pc = .idle ∧ p ∈ t.packets ∧ t' = ⟨t.packets.erase p, .idle⟩ ∧
      h' = { h with queued := p ::ₘ h.queued }
  | .take p, t, h, t', h' =>
    t.pc = .idle ∧ p ∈ h.queued ∧ t' = t.return {p} ∧ h' = { h with queued := h.queued.erase p }
  | .free m rest, t, h, t', h' =>
    t.pc = .idle ∧ (m :: rest) ∈ t.packets ∧
      t' = ⟨t.packets.erase (m :: rest), .freeLoad m rest⟩ ∧ h' = h
  | .clone md rest mp, t, h, t', h' =>
    t.pc = .idle ∧ (md :: rest) ∈ t.packets ∧
      t' = { t with pc := .cloneAlloc ⟨md :: rest, md, rest, mp, 0, []⟩ } ∧ h' = h
  | .update m rest v, t, h, t', h' =>
    t.pc = .idle ∧ (m :: rest) ∈ t.packets ∧ t' = { t with pc := .updateAdd m rest [] v } ∧ h' = h
  | .advance got, t, h, t', h' =>
    (∀ c mi, t.pc = .cloneAlloc c → got = some mi → mi ∈ h.pool ∧ P.pool mi = c.mp) ∧
      (t', h') = t.advance P got h

/-- What the functions leave to their callers: a packet that is cloned has no
    indirect segment, which `rte_pktmbuf_attach` does not support and only a
    debug build checks, and a counter of 16 bits takes what is added to it. -/
def Step.admits : Step π → Thread π → Heap → Prop
  | .clone md rest _, _, h => ∀ m ∈ md :: rest, (h.mbuf m).RTE_MBUF_INDIRECT = false
  | .advance _, t, h =>
    match t.pc with
    | .cloneAttach c _ => (h.refcnt c.md).toNat + 1 < 2 ^ 16
    | .updateAdd m _ _ v => (h.refcnt m).toNat + v < 2 ^ 16
    | _ => True
  | _, _, _ => True

end steps

/-! ## Section 2: References -/

/-- The mbuf that an indirect mbuf is attached to. -/
def Fields.target (f : Fields) : Multiset Mbuf :=
  if f.RTE_MBUF_INDIRECT then {RTE_MBUF_FROM_BADDR f.buf_addr} else 0

/-- The segments of packets. -/
def segments (ps : Multiset (List Mbuf)) : Multiset Mbuf := ps.bind fun p => (p : Multiset Mbuf)

@[simp] theorem segments_zero : segments 0 = 0 := rfl
@[simp] theorem segments_add (ps qs : Multiset (List Mbuf)) :
    segments (ps + qs) = segments ps + segments qs := Multiset.add_bind _ _ _
@[simp] theorem segments_cons (p : List Mbuf) (ps : Multiset (List Mbuf)) :
    segments (p ::ₘ ps) = p + segments ps := Multiset.cons_bind _ _ _
@[simp] theorem segments_singleton (p : List Mbuf) : segments {p} = p :=
  Multiset.singleton_bind _ _

theorem segments_replicate (n : Nat) (p : List Mbuf) :
    segments (Multiset.replicate n p) = n • (p : Multiset Mbuf) := by
  rw [segments, Multiset.bind, Multiset.map_replicate, Multiset.join, Multiset.sum_replicate]

theorem mem_segments {ps : Multiset (List Mbuf)} {m : Mbuf} :
    m ∈ segments ps ↔ ∃ p ∈ ps, m ∈ p := by
  rw [segments, Multiset.mem_bind]
  exact Iff.rfl

section references
variable {π : Type}

/-- The references of a call. -/
def Pc.refs : Pc π → Multiset Mbuf
  | .idle => 0
  | .freeLoad m rest => (m :: rest : List Mbuf)
  | .freeRead m _ rest => (m :: rest : List Mbuf)
  | .freeLast m _ rest => (m :: rest : List Mbuf)
  | .freeDec m _ rest => (m :: rest : List Mbuf)
  | .freeAttached _ _ rest md => (md :: rest : List Mbuf)
  | .freeBuffer _ _ rest _ => (rest : List Mbuf)
  | .freePut _ _ rest => (rest : List Mbuf)
  | .cloneAlloc c => (c.made : List Mbuf)
  | .cloneAttach c mi => (c.made ++ [mi] : List Mbuf)
  | .cloneNext c => (c.made : List Mbuf)
  | .updateAdd _ _ done v => v • (done : Multiset Mbuf)
  | .updateNext _ _ done v => v • (done : Multiset Mbuf)

/-- The mbufs that a call is about to put into their pools. -/
def Pc.owned : Pc π → Multiset Mbuf
  | .freeAttached m _ _ _ => {m}
  | .freeBuffer m _ _ md => {m, md}
  | .freePut m _ _ => {m}
  | _ => 0

variable (P : Pools π)

def books : Books (Thread π) Heap Mbuf Fields where
  all := P.all
  count h m := (h.refcnt m).toNat
  contents h := h.mbuf
  pool := Heap.pool
  stored h := segments h.queued + ∑ m ∈ P.all, (h.mbuf m).target
  refs t := segments t.packets + t.pc.refs
  owned t := t.pc.owned

def initial (ι : Type) : State ι (Thread π) Heap where
  threads _ := ⟨0, .idle⟩
  heap := ⟨fun _ => 0, rte_pktmbuf_init P, P.all.val, 0⟩

/-- All interleavings of the calls, from full pools. -/
def pktmbufs {ι : Type} [DecidableEq ι] : System (State ι (Thread π) Heap) (ι × Step π) :=
  RefCounting.system (fun s => s = initial P ι) (Step.act P)

end references

/-- Each segment points to the next one. -/
def Linked (mbuf : Mbuf → Fields) (p : List Mbuf) : Prop :=
  List.IsChain (fun x y => (mbuf x).next = some y) p

/-- And the last one to none. -/
structure Chained (mbuf : Mbuf → Fields) (p : List Mbuf) : Prop where
  linked : Linked mbuf p
  ends : ∀ m ∈ p.getLast?, (mbuf m).next = none

/-- An mbuf that shows the data of another one. -/
def Fields.Shows (f source : Fields) : Prop :=
  f = { rte_pktmbuf_attach source with next := f.next, nb_segs := f.nb_segs, pkt_len := f.pkt_len }

def Heap.Direct (h : Heap) (m : Mbuf) : Prop := (h.mbuf m).RTE_MBUF_INDIRECT = false

structure HeapInv {π : Type} (P : Pools π) (h : Heap) : Prop where
  queued : ∀ p ∈ h.queued, p ≠ [] ∧ Chained h.mbuf p
  /-- A direct mbuf has the buffer behind it. -/
  buffer : ∀ m ∈ P.all, h.Direct m → (h.mbuf m).buf_addr = RTE_MBUF_TO_BADDR m
  /-- No mbuf is attached to an indirect one. -/
  attached : ∀ m ∈ P.all, ¬ h.Direct m → h.Direct (RTE_MBUF_FROM_BADDR (h.mbuf m).buf_addr)
  pool : ∀ m ∈ h.pool, h.Direct m

section invariant
variable {π : Type}

/-- The clone so far, of the first segments of `p`. -/
structure Clone.Inv (c : Clone π) (h : Heap) (p copied : List Mbuf) : Prop where
  direct : ∀ m ∈ p, h.Direct m
  linked : Linked h.mbuf c.made
  own : ∀ m ∈ c.made, h.refcnt m = 1
  shows : List.Forall₂ Fields.Shows (c.made.map h.mbuf) (copied.map h.mbuf)
  pktlen : c.made ≠ [] → ∀ m ∈ p.head?, c.pktlen = (h.mbuf m).pkt_len
  source : p = c.source

/-- What is known at each point of a call. -/
def Pc.Knows (h : Heap) (packets : Multiset (List Mbuf)) : Pc π → Prop
  | .idle => True
  | .freeLoad m rest => Chained h.mbuf (m :: rest)
  | .freeRead _ m_next rest => m_next = rest.head? ∧ Chained h.mbuf rest
  | .freeLast m m_next rest => m_next = rest.head? ∧ Chained h.mbuf rest ∧ h.refcnt m = 1
  | .freeDec _ m_next rest => m_next = rest.head? ∧ Chained h.mbuf rest
  | .freeAttached m m_next rest md =>
    m_next = rest.head? ∧ Chained h.mbuf rest ∧ h.Direct m ∧ h.Direct md
  | .freeBuffer m m_next rest md =>
    m_next = rest.head? ∧ Chained h.mbuf rest ∧ h.Direct m ∧ h.Direct md
  | .freePut m m_next rest => m_next = rest.head? ∧ Chained h.mbuf rest ∧ h.Direct m
  | .cloneAlloc c => ∃ copied, copied ++ c.md :: c.rest ∈ packets ∧
    c.Inv h (copied ++ c.md :: c.rest) copied
  | .cloneAttach c mi => ∃ copied, copied ++ c.md :: c.rest ∈ packets ∧
    c.Inv h (copied ++ c.md :: c.rest) copied ∧ h.refcnt mi = 1 ∧ h.Direct mi ∧
    ∀ m ∈ (copied ++ c.md :: c.rest).head?, c.pktlen = (h.mbuf m).pkt_len
  | .cloneNext c => ∃ copied, copied ++ c.rest ∈ packets ∧ copied.getLast? = some c.md ∧
    c.Inv h (copied ++ c.rest) copied
  | .updateAdd m rest done _ => done ++ m :: rest ∈ packets
  | .updateNext m rest done _ => done ++ rest ∈ packets ∧ done.getLast? = some m

structure Thread.Inv (t : Thread π) (h : Heap) : Prop where
  packets : ∀ p ∈ t.packets, p ≠ [] ∧ Chained h.mbuf p
  knows : t.pc.Knows h t.packets

end invariant

/-! ## Section 3: Chains -/

section chains
variable {mbuf mbuf' : Mbuf → Fields} {p q : List Mbuf} {m : Mbuf}

/-- The links of a chain are in all segments but the last. -/
theorem Linked.congr (h : Linked mbuf p)
    (hnext : ∀ x ∈ p.dropLast, (mbuf' x).next = (mbuf x).next) : Linked mbuf' p := by
  induction p with
  | nil => exact List.isChain_nil
  | cons x p ih =>
    cases p with
    | nil => exact List.isChain_singleton x
    | cons y p =>
      obtain ⟨hlink, hrest⟩ := List.isChain_cons_cons.mp h
      rw [List.dropLast_cons_cons] at hnext
      have htail := ih hrest fun z hz => hnext z (List.mem_cons_of_mem x hz)
      refine List.isChain_cons_cons.mpr ⟨?_, htail⟩
      rw [hnext x (List.mem_cons_self ..), hlink]

theorem Chained.congr (h : Chained mbuf p) (hnext : ∀ x ∈ p, (mbuf' x).next = (mbuf x).next) :
    Chained mbuf' p := by
  refine ⟨h.linked.congr fun x hx => hnext x (List.mem_of_mem_dropLast hx), ?_⟩
  intro x hx
  rw [hnext x (List.mem_of_getLast? hx), h.ends x hx]

theorem chained_nil : Chained mbuf [] := ⟨List.isChain_nil, fun _ h => by simp at h⟩

theorem chained_cons : Chained mbuf (m :: p) ↔ (mbuf m).next = p.head? ∧ Chained mbuf p := by
  constructor
  · intro h
    cases p with
    | nil => exact ⟨h.ends m (by simp), chained_nil⟩
    | cons x p =>
      obtain ⟨hlink, hrest⟩ := List.isChain_cons_cons.mp h.linked
      exact ⟨hlink, hrest, fun y hy => h.ends y (by rw [List.getLast?_cons_cons]; exact hy)⟩
  · rintro ⟨hnext, hrest⟩
    cases p with
    | nil =>
      refine ⟨List.isChain_singleton m, fun y hy => ?_⟩
      obtain rfl : m = y := by simpa using hy
      exact hnext
    | cons x p =>
      refine ⟨List.isChain_cons_cons.mpr ⟨hnext, hrest.linked⟩, fun y hy => ?_⟩
      rw [List.getLast?_cons_cons] at hy
      exact hrest.ends y hy

/-- From one segment to the next. -/
theorem Chained.next_of_append (h : Chained mbuf (p ++ q)) (hlast : p.getLast? = some m) :
    (mbuf m).next = q.head? := by
  cases q with
  | nil => exact h.ends m (by rw [List.append_nil]; exact hlast)
  | cons y q => exact (List.isChain_append.mp h.linked).2.2 m hlast y rfl

/-- The last segment of the first packet points to the second one. -/
theorem Chained.append (hp : Linked mbuf p) (hq : Chained mbuf q) (hlast : p.getLast? = some m)
    (hnext : (mbuf' m).next = q.head?)
    (hp' : ∀ x ∈ p.dropLast, (mbuf' x).next = (mbuf x).next)
    (hq' : ∀ x ∈ q, (mbuf' x).next = (mbuf x).next) : Chained mbuf' (p ++ q) := by
  have hqc := hq.congr hq'
  constructor
  · refine List.isChain_append.mpr ⟨hp.congr hp', hqc.linked, ?_⟩
    intro x hx y hy
    obtain rfl : m = x := Option.some.inj (hlast.symm.trans hx)
    rw [hnext]
    exact hy
  · intro x hx
    cases q with
    | nil =>
      rw [List.append_nil] at hx
      obtain rfl : m = x := Option.some.inj (hlast.symm.trans hx)
      exact hnext
    | cons y q =>
      rw [List.getLast?_append_of_ne_nil _ (List.cons_ne_nil y q)] at hx
      exact hqc.ends x hx

end chains

end PacketPro.Dpdk.Pktmbuf
