import PacketPro.Framework.Lending
import PacketPro.DpdkJavaR.Firewall
import Mathlib.Tactic.Abel

/-! # Mbufs in Circulation

    The whole machine around the firewall of the second version: any number of
    processing threads, the NIC and its driver, and the memory pool, over one
    native memory. The driver takes mbufs from the pool and posts them to the
    receive rings, the NIC writes arriving packets into posted mbufs, a poll
    hands such mbufs to a thread, and the thread's sender and freeer give them
    back: to the transmit ring, and from there or directly to the pool. So the
    same mbuf carries one packet after the other.

    * **Circulation** (`mbufs_circulate`): in every interleaving each mbuf is
      in one place, once; what a thread does with a packet is decided by the
      header as it arrived; and all but 542 mbufs for each thread are with the
      NIC or in the pool, if no transmission was refused.
    * **No use after a hand-over** (`accesses_held`): a step of a thread
      accesses its own buffers, and the header of a packet that it holds, while
      no other thread, no ring and not the pool has the mbuf.

    The log of accesses is that of the Java classes and of `Utils.c`. What a poll
    reads of a `struct rte_mbuf` to find the packet is not in it; there the mbuf
    is one that the poll gives to the thread. Nor are the accesses that DPDK
    makes itself when it receives, sends and frees.
-/

open ByteMem Batching Transitions

namespace PacketPro.DpdkJavaR

/-! ## Section 1: Definitions -/

/-- A packet as it was received, and whether the filter passed it then. -/
structure Arrival where
  rx : RxMbuf
  passes : Bool

/-- The mbufs that no thread has: in the pool, in a receive ring, in a transmit
    ring, or presented for transmission, refused and given up. -/
structure MbufRings where
  pool : Multiset Mbuf
  posted : Multiset Mbuf
  transmitting : Multiset Mbuf
  lost : Multiset Mbuf

def MbufRings.kept (e : MbufRings) : Multiset Mbuf := e.pool + e.posted + e.transmitting + e.lost

/-- A thread, with `current` of the iterator while it is in its `for` loop. The
    last two fields record what it has received: the packets it has inspected,
    and those it has still to inspect. -/
structure Thread where
  proc : Processor
  iterating : Option JInt
  world : World
  inspected : List Arrival
  todo : List Arrival

/-- The steps of `run`. -/
inductive ThreadStep where
  | poll (delivered : List RxMbuf)
  | pass

/-- The world of a thread over the memory that all share. The log of accesses
    starts again with each step. -/
def onMemory (w : World) (m : Memory 64) : World := { w with heap := ⟨m, []⟩ }

@[simp] theorem onMemory_mem (w : World) (m : Memory 64) : (onMemory w m).mem = m := rfl

namespace Thread

/-- `packets = rp_ind.getBurst()`, and the iterator if there is a list. -/
def poll (blacklist : Finset JLong) (t : Thread) (delivered : List RxMbuf) (m : Memory 64) :
    Thread × Memory 64 :=
  let (some_packets, rp_ind, w) := t.proc.rp_ind.getBurst delivered (onMemory t.world m)
  let todo := delivered.map fun r => ⟨r, r.packet.passes blacklist m⟩
  if some_packets then
    let (current, packets) := rp_ind.packets.iterator
    ({ t with proc := { t.proc with rp_ind := { rp_ind with packets } }, iterating := some current
              world := w, todo }, w.mem)
  else
    ({ t with proc := { t.proc with rp_ind }, world := w, todo }, w.mem)

/-- One pass of `for (Packet p : packets) inspect(p)`, or the end of the loop. -/
def pass (blacklist : Finset JLong) (t : Thread) (current : JInt) (m : Memory 64) :
    Thread × Memory 64 :=
  if t.proc.rp_ind.packets.hasNext current then
    let (current, packets, handlers, w) := PacketList.pass (FirewallProcessor.body blacklist)
      current t.proc.rp_ind.packets t.proc.toHandlers (onMemory t.world m)
    ({ proc := { toHandlers := handlers, rp_ind := { t.proc.rp_ind with packets } }
       iterating := some current, world := w
       inspected := t.inspected ++ t.todo.take 1, todo := t.todo.drop 1 }, w.mem)
  else
    ({ t with iterating := none, world := onMemory t.world m }, m)

/-- A thread over newly constructed objects. -/
def new (L : Layout) (m : Memory 64) (accept : Nat → (n : Nat) → Fin (n + 1))
    (reading : Nat → JLong) : Thread :=
  let (proc, world) := L.processor (World.boot m accept reading)
  { proc, iterating := none, world, inspected := [], todo := [] }

/-- The mbufs that a thread was given and has not passed on. -/
def holds (t : Thread) : Multiset Mbuf :=
  ((t.inspected ++ t.todo).map fun a => a.rx.mbuf : List Mbuf) -
    ((t.world.nic.freed ++ presented t.world.nic.txBursts : List Mbuf) : Multiset Mbuf)

end Thread

/-- Where the mbufs go that a thread's step has freed or presented: a freed one
    is back in the pool, and the transmit ring takes what it accepts. -/
def MbufRings.takeOver (e : MbufRings) (before after : Nic) : MbufRings :=
  let bursts := after.txBursts.drop before.txBursts.length
  { e with
    pool := e.pool + (after.freed.drop before.freed.length : List Mbuf)
    transmitting := e.transmitting + (owned bursts : List Mbuf)
    lost := e.lost + (rejected bursts : List Mbuf) }

/-- The steps of the NIC and its driver. -/
inductive NicStep where
  /-- An mbuf of the pool is posted to a receive ring. -/
  | post (r : Mbuf)
  /-- A packet is written into a posted mbuf. -/
  | write (r : Mbuf)
  /-- A transmission is complete, and the driver frees the mbuf. -/
  | complete (r : Mbuf)

/-- The threads and their buffers, and the mbufs with their data areas. -/
structure Deployment (ι : Type) where
  blacklist : ι → Finset JLong
  layout : ι → Layout
  mbufs : Multiset Mbuf
  data : Mbuf → Region 64
  accept : ι → Nat → (n : Nat) → Fin (n + 1)
  reading : ι → Nat → JLong
  m₀ : Memory 64

/-- An address in one of the three buffers. -/
def Layout.owns (L : Layout) (b : Addr) : Prop := b ∈ L.rpRegion ∨ b ∈ L.psRegion ∨ b ∈ L.pfRegion

namespace Deployment

variable {ι : Type} (D : Deployment ι)

/-- No two buffers and no two data areas overlap. -/
structure Apart : Prop where
  separate : ∀ i, (D.layout i).Separate
  threads : ∀ i j b, i ≠ j → (D.layout i).owns b → ¬ (D.layout j).owns b
  nodup : D.mbufs.Nodup
  data : ∀ r ∈ D.mbufs, ∀ r' ∈ D.mbufs, r ≠ r' → (D.data r).Disjoint (D.data r')
  buffers : ∀ r ∈ D.mbufs, ∀ i b, b ∈ D.data r → ¬ (D.layout i).owns b

/-- What `rte_eth_rx_burst` may return: mbufs that were posted, each with its
    header in its data area. -/
structure Deliverable (e : MbufRings) (delivered : List RxMbuf) : Prop where
  length : delivered.length ≤ 512
  posted : (delivered.map RxMbuf.mbuf : Multiset Mbuf) ≤ e.posted
  header : ∀ r ∈ delivered, ∀ b, b ∈ r.packet.header → b ∈ D.data r.mbuf

def parties : Lending.Parties ι Thread MbufRings ThreadStep NicStep Addr (BitVec 8) where
  act
    | i, .poll delivered, d, d' =>
      let r := d.thread.poll (D.blacklist i) delivered d.store
      d.thread.iterating = none ∧ D.Deliverable d.keeper delivered ∧
        d' = ⟨r.1, { d.keeper with posted := d.keeper.posted - delivered.map RxMbuf.mbuf }, r.2⟩
    | i, .pass, d, d' => ∃ current, d.thread.iterating = some current ∧
        let r := d.thread.pass (D.blacklist i) current d.store
        d' = ⟨r.1, d.keeper.takeOver d.thread.world.nic r.1.world.nic, r.2⟩
  serve
    | .post r, e, m, e', m' =>
      r ∈ e.pool ∧ e' = { e with pool := e.pool.erase r, posted := r ::ₘ e.posted } ∧ m' = m
    | .write r, e, m, e', m' => r ∈ e.posted ∧ e' = e ∧ ∀ b, b ∉ D.data r → m' b = m b
    | .complete r, e, m, e', m' =>
      r ∈ e.transmitting ∧
        e' = { e with pool := r ::ₘ e.pool, transmitting := e.transmitting.erase r } ∧ m' = m

def books : Lending.Books ι Thread MbufRings Addr Mbuf where
  held _ t := t.holds
  kept := MbufRings.kept
  owns i := (D.layout i).owns
  area r b := b ∈ D.data r

abbrev SystemState (ι : Type) : Type := Lending.State ι Thread MbufRings Addr (BitVec 8)

/-- All interleavings of the threads and the NIC, from a full pool. -/
def system [DecidableEq ι] : System (SystemState ι) (Lending.Label ι ThreadStep NicStep) :=
  Lending.system
    (fun s => s = ⟨fun i => Thread.new (D.layout i) D.m₀ (D.accept i) (D.reading i),
      ⟨D.mbufs, 0, 0, 0⟩, D.m₀⟩)
    D.parties

end Deployment

/-- What a thread has done with the packets it received. -/
structure Thread.Works (t : Thread) (m : Memory 64) : Prop where
  /-- It holds what it has still to inspect and what waits in its two lists. -/
  holds : t.holds = ((t.todo.map fun a => a.rx.mbuf) ++
    (t.proc.ps_ind.list.mbufs m ++ t.proc.pf_ind.list.mbufs m) : List Mbuf)
  /-- Presented for transmission, or waiting to be: what passed on arrival. -/
  sent : presented t.world.nic.txBursts ++ t.proc.ps_ind.list.mbufs m =
    (t.inspected.filter fun a => a.passes).map fun a => a.rx.mbuf
  /-- Freed, or waiting to be: all others. -/
  freed : t.world.nic.freed ++ t.proc.pf_ind.list.mbufs m =
    (t.inspected.filter fun a => !a.passes).map fun a => a.rx.mbuf
  bounded : t.holds.card ≤ 542

/-- Thread `i` has the mbuf, and nobody else. -/
structure HeldAlone {ι : Type} (s : Deployment.SystemState ι) (i : ι) (r : Mbuf) : Prop where
  held : r ∈ (s.threads i).holds
  not_kept : r ∉ s.keeper.kept
  others : ∀ j, j ≠ i → r ∉ (s.threads j).holds

/-! ## Section 2: One packet -/

theorem packetsAt_congr {m m' : Memory 64} {a : Addr} {n : Nat} (hn : n < 2 ^ 16)
    (h : ∀ b, b ∈ (⟨a, 16 * n⟩ : Region 64) → m b = m' b) : packetsAt m a n = packetsAt m' a n := by
  apply List.ext_getElem?
  intro k
  by_cases hk : k < n
  · rw [PacketList.packetsAt_getElem? m a hk, PacketList.packetsAt_getElem? m' a hk,
      PacketList.pairAt_congr hk hn h]
  · rw [List.getElem?_eq_none (by simpa using hk), List.getElem?_eq_none (by simpa using hk)]

/-- The pairs of a list lie in the buffer of the poller. -/
theorem pairs_within (L : Layout) {n : Nat} (hn : n ≤ 512) (b : Addr)
    (hb : b ∈ (⟨cell L.rp 2, 16 * n⟩ : Region 64)) : b ∈ L.rpRegion :=
  burst_within L hn b (cell_subset _ _ 2 _ (Nat.le_refl _) (by omega) b hb)

/-- The NIC's logs of one thread only grow. -/
structure Extends (nic nic' : Nic) : Prop where
  freed : nic.freed <+: nic'.freed
  txBursts : nic.txBursts <+: nic'.txBursts

theorem sendPacket_extends {ps : PacketSender} {w : World} {held : List Mbuf}
    (h : ps.toBurstQueue.Buffers w.mem held) (p : Packet) :
    Extends w.nic (ps.sendPacket p w).2.nic := by
  obtain ⟨-, hnic, -, -⟩ := BurstQueue.add_spec nat_send_packets_drains h (fun _ _ hb => hb) p
  rw [show (ps.sendPacket p w).2.nic = _ from hnic]
  by_cases hfull : held.length + 1 = 16
  · rw [if_pos hfull]
    exact ⟨List.prefix_refl _, List.prefix_append _ _⟩
  · rw [if_neg hfull]
    exact ⟨List.prefix_refl _, List.prefix_refl _⟩

theorem freePacket_extends {pf : PacketFreeer} {w : World} {held : List Mbuf}
    (h : pf.toBurstQueue.Buffers w.mem held) (p : Packet) :
    Extends w.nic (pf.freePacket p w).2.nic := by
  obtain ⟨-, hnic, -, -⟩ := BurstQueue.add_spec nat_free_packets_drains h (fun _ _ hb => hb) p
  rw [show (pf.freePacket p w).2.nic = _ from hnic]
  by_cases hfull : held.length + 1 = 16
  · rw [if_pos hfull]
    exact ⟨List.prefix_append _ _, List.prefix_refl _⟩
  · rw [if_neg hfull]
    exact ⟨List.prefix_refl _, List.prefix_refl _⟩

section link
variable {L : Layout} {allowed allowed' : AccessKind → Addr → Prop} {base : Memory 64}
  {sendQ freeQ : Queue Mbuf} {s : Handlers} {w : World}

/-- The link is a matter of the two buffers and the logs of the NIC. -/
theorem Linked.onMemory (h : Linked L allowed base sendQ freeQ s w) {w' : World} {m : Memory 64}
    (hnic : w'.nic = w.nic) (hmem : ∀ b, b ∈ L.psRegion ∨ b ∈ L.pfRegion → m b = w.mem b) :
    Linked L allowed' m sendQ freeQ s (onMemory w' m) := by
  refine ⟨?_, ?_, h.senderRegion, h.freeerRegion, hnic ▸ h.batches, hnic ▸ h.freed,
    hnic ▸ h.freeCounts, h.sendExact, h.freeExact, fun _ _ _ => rfl, ?_⟩
  · apply h.sender.congr
    intro b hb
    exact hmem b (Or.inl (h.senderRegion ▸ hb))
  · apply h.freeer.congr
    intro b hb
    exact hmem b (Or.inr (h.freeerRegion ▸ hb))
  · intro acc hacc
    exact absurd hacc List.not_mem_nil

/-- **Step lemma**: `inspect` gives the packet to the queue that its header
    decides. -/
theorem body_linked (h : Linked L allowed base sendQ freeQ s w) (hsep : L.Separate)
    (hps : ∀ kind b, b ∈ L.psRegion → allowed kind b)
    (hpf : ∀ kind b, b ∈ L.pfRegion → allowed kind b) (blacklist : Finset JLong) (p : Packet)
    (hheader : ∀ b, b ∈ p.header → allowed .load b) (ua : UnsafeAccess) :
    ∃ sendQ' freeQ', Linked L allowed base sendQ' freeQ'
        (FirewallProcessor.body blacklist p ua s w).2.1
        (FirewallProcessor.body blacklist p ua s w).2.2 ∧
      sendQ'.given = sendQ.given ++ (if p.passes blacklist w.mem then [p.mbuf_pointer] else []) ∧
      freeQ'.given = freeQ.given ++ (if p.passes blacklist w.mem then [] else [p.mbuf_pointer]) ∧
      Extends w.nic (FirewallProcessor.body blacklist p ua s w).2.2.nic := by
  have hverdict := PacketPro.FirewallProcessor.verdict_fst blacklist p ua w
  have hconf := PacketPro.FirewallProcessor.verdict_confined blacklist p ua w hheader
  have hread := h.confined hconf (PacketPro.FirewallProcessor.verdict_mem blacklist p ua w)
  unfold FirewallProcessor.body FirewallProcessor.inspect
  by_cases hpass : p.passes blacklist w.mem = true
  · rw [hpass] at hverdict
    simp only [hverdict, if_true, hpass]
    refine ⟨sendQ.pushFull 16 p.mbuf_pointer, freeQ, hread.sendPacket hsep hps p, ?_, ?_, ?_⟩
    · rw [given_pushFull]
    · rw [List.append_nil]
    · have hextends := sendPacket_extends hread.sender p
      rwa [hconf.nic] at hextends
  · rw [Bool.not_eq_true] at hpass
    rw [hpass] at hverdict
    simp only [hverdict, Bool.false_eq_true, if_false, hpass]
    refine ⟨sendQ, freeQ.pushFull 16 p.mbuf_pointer, hread.freePacket hsep hpf p, ?_, ?_, ?_⟩
    · rw [List.append_nil]
    · rw [given_pushFull]
    · have hextends := freePacket_extends hread.freeer p
      rwa [hconf.nic] at hextends

end link

/-! ## Section 3: What a thread keeps -/

/-- The two queues behind the sender and the freeer, and what they were given. -/
structure Thread.Accounts (L : Layout) (t : Thread) (m : Memory 64) (sendQ freeQ : Queue Mbuf) :
    Prop where
  linked : Linked L (fun _ _ => True) m sendQ freeQ t.proc.toHandlers (onMemory t.world m)
  sent : sendQ.given = (t.inspected.filter fun a => a.passes).map fun a => a.rx.mbuf
  freed : freeQ.given = (t.inspected.filter fun a => !a.passes).map fun a => a.rx.mbuf

structure Thread.Inv {ι : Type} (D : Deployment ι) (i : ι) (t : Thread) (m : Memory 64) : Prop where
  accounts : ∃ sendQ freeQ, t.Accounts (D.layout i) m sendQ freeQ
  poller : t.proc.rp_ind.mem_pointer = (D.layout i).rp
  idle : t.iterating = none → t.todo = []
  /-- The pairs that the iterator has still to read are the packets to do. -/
  loop : ∀ current, t.iterating = some current → ∃ n k, n ≤ 512 ∧ k + t.todo.length = n ∧
    t.proc.rp_ind.packets.Before current (cell (D.layout i).rp 2) n k ∧
    (packetsAt m (cell (D.layout i).rp 2) n).drop k = t.todo.map fun a => a.rx.packet
  /-- The headers of the packets to do are as they arrived. -/
  arrivals : ∀ a ∈ t.todo, a.rx.mbuf ∈ D.mbufs ∧
    (∀ b, b ∈ a.rx.packet.header → b ∈ D.data a.rx.mbuf) ∧
    a.passes = a.rx.packet.passes (D.blacklist i) m

namespace Thread

section accounts
variable {L : Layout} {t : Thread} {m : Memory 64} {sendQ freeQ : Queue Mbuf}

/-- What was received went to the NIC, waits in a list, or is to be done. -/
theorem Accounts.received (h : t.Accounts L m sendQ freeQ) :
    (((t.inspected ++ t.todo).map fun a => a.rx.mbuf : List Mbuf) : Multiset Mbuf) =
      (t.world.nic.freed ++ presented t.world.nic.txBursts : List Mbuf) +
        ((t.todo.map fun a => a.rx.mbuf) ++ (sendQ.held ++ freeQ.held) : List Mbuf) := by
  have hfreed : t.world.nic.freed = freeQ.flushed.flatten := h.linked.freed
  have hsent : presented t.world.nic.txBursts = sendQ.flushed.flatten :=
    congrArg List.flatten h.linked.batches
  -- every packet passes or does not
  have hsplit : ((t.inspected.map fun a => a.rx.mbuf : List Mbuf) : Multiset Mbuf) =
      (sendQ.given : Multiset Mbuf) + freeQ.given := by
    rw [h.sent, h.freed, Multiset.coe_add, ← List.map_append]
    exact Multiset.coe_eq_coe.mpr ((List.filter_append_perm _ _).map _).symm
  rw [List.map_append, ← Multiset.coe_add, hsplit, Queue.given, Queue.given, hfreed, hsent]
  simp only [← Multiset.coe_add]
  abel

theorem Accounts.holds (h : t.Accounts L m sendQ freeQ) :
    t.holds = ((t.todo.map fun a => a.rx.mbuf) ++ (sendQ.held ++ freeQ.held) : List Mbuf) := by
  rw [Thread.holds, h.received, add_tsub_cancel_left]

/-- What was received is what went to the NIC and what is held. -/
theorem Accounts.received_eq (h : t.Accounts L m sendQ freeQ) :
    (((t.inspected ++ t.todo).map fun a => a.rx.mbuf : List Mbuf) : Multiset Mbuf) =
      (t.world.nic.freed ++ presented t.world.nic.txBursts : List Mbuf) + t.holds := by
  rw [h.holds, h.received]

end accounts

section fields
variable (blacklist : Finset JLong) (t : Thread) (delivered : List RxMbuf) (m : Memory 64)

/-- What a poll leaves and sets whether or not it returns a list. -/
theorem poll_fields :
    (t.poll blacklist delivered m).1.world =
      (t.proc.rp_ind.getBurst delivered (onMemory t.world m)).2.2 ∧
    (t.poll blacklist delivered m).2 =
      (t.proc.rp_ind.getBurst delivered (onMemory t.world m)).2.2.mem ∧
    (t.poll blacklist delivered m).1.proc.toHandlers = t.proc.toHandlers ∧
    (t.poll blacklist delivered m).1.proc.rp_ind.mem_pointer = t.proc.rp_ind.mem_pointer ∧
    (t.poll blacklist delivered m).1.inspected = t.inspected ∧
    (t.poll blacklist delivered m).1.todo =
      delivered.map fun r => ⟨r, r.packet.passes blacklist m⟩ := by
  have hpointer := t.proc.rp_ind.getBurst_mem_pointer delivered (onMemory t.world m)
  unfold Thread.poll
  by_cases hsome : (t.proc.rp_ind.getBurst delivered (onMemory t.world m)).1 = true
  · simp only [hsome, if_true]
    exact ⟨trivial, trivial, trivial, hpointer, trivial, trivial⟩
  · rw [Bool.not_eq_true] at hsome
    simp only [hsome, Bool.false_eq_true, if_false]
    exact ⟨trivial, trivial, trivial, hpointer, trivial, trivial⟩

theorem poll_nil : (t.poll blacklist [] m).1.iterating = t.iterating := by
  unfold Thread.poll
  simp only [t.proc.rp_ind.getBurst_nil, Bool.false_eq_true, if_false]

/-- The iterator of a list stands before its first pair. -/
theorem poll_cons (hlen : delivered.length ≤ 512) (hne : delivered ≠ []) :
    ∃ current, (t.poll blacklist delivered m).1.iterating = some current ∧
      (t.poll blacklist delivered m).1.proc.rp_ind.packets.Before current
        (cell t.proc.rp_ind.mem_pointer 2) delivered.length 0 := by
  obtain ⟨hsome, hstart, hsize⟩ :=
    t.proc.rp_ind.getBurst_cons delivered (onMemory t.world m) (by omega) hne
  have hbefore := PacketList.iterator_before hsize
  rw [hstart] at hbefore
  unfold Thread.poll
  simp only [hsome, if_true]
  exact ⟨_, rfl, hbefore⟩

variable (current : JInt)

/-- The world and the handlers after the body of the loop has run. -/
def bodyResult : UnsafeAccess × Handlers × World :=
  let l := (t.proc.rp_ind.packets.next current (onMemory t.world m)).2
  FirewallProcessor.body blacklist l.1.returnedPacket l.1.ua_packet t.proc.toHandlers l.2

theorem pass_fields (hnext : t.proc.rp_ind.packets.hasNext current = true) :
    (t.pass blacklist current m).1.world = (bodyResult blacklist t m current).2.2 ∧
    (t.pass blacklist current m).2 = (bodyResult blacklist t m current).2.2.mem ∧
    (t.pass blacklist current m).1.proc.toHandlers = (bodyResult blacklist t m current).2.1 ∧
    (t.pass blacklist current m).1.proc.rp_ind.mem_pointer = t.proc.rp_ind.mem_pointer ∧
    (t.pass blacklist current m).1.inspected = t.inspected ++ t.todo.take 1 ∧
    (t.pass blacklist current m).1.todo = t.todo.drop 1 := by
  unfold Thread.pass bodyResult PacketList.pass
  simp only [hnext, if_true]
  exact ⟨trivial, trivial, trivial, trivial, trivial, trivial⟩

theorem pass_iterating (hnext : t.proc.rp_ind.packets.hasNext current = true) {a : Addr}
    {n k : Nat} (hbefore : t.proc.rp_ind.packets.Before current a n k) (hk : k < 2 ^ 16) :
    ∃ current', (t.pass blacklist current m).1.iterating = some current' ∧
      (t.pass blacklist current m).1.proc.rp_ind.packets.Before current' a n (k + 1) := by
  have hpass := PacketList.pass_before (FirewallProcessor.body blacklist) hbefore hk
    t.proc.toHandlers (onMemory t.world m)
  unfold Thread.pass
  simp only [hnext, if_true]
  exact ⟨_, rfl, hpass⟩

end fields

namespace Inv

variable {ι : Type} {D : Deployment ι} {i : ι} {t : Thread} {m : Memory 64}

/-- A list of 512 packets at most, and two lists that are not full. -/
theorem works (h : t.Inv D i m) : t.Works m := by
  obtain ⟨sendQ, freeQ, haccounts⟩ := h.accounts
  have hlink := haccounts.linked
  have hsendHeld := hlink.sendExact.2
  have hfreeHeld := hlink.freeExact.2
  have hps : t.proc.ps_ind.list.mbufs m = sendQ.held := hlink.sender.list.mbufs_eq (by omega)
  have hpf : t.proc.pf_ind.list.mbufs m = freeQ.held := hlink.freeer.list.mbufs_eq (by omega)
  have htodo : t.todo.length ≤ 512 := by
    cases hiterating : t.iterating with
    | none =>
      rw [h.idle hiterating]
      exact Nat.zero_le _
    | some current =>
      obtain ⟨n, k, hn, hk, -, -⟩ := h.loop current hiterating
      omega
  refine ⟨?_, ?_, ?_, ?_⟩
  · rw [hps, hpf]
    exact haccounts.holds
  · rw [hps, presented]
    exact (congrArg (fun bs => List.flatten bs ++ sendQ.held) hlink.batches).trans haccounts.sent
  · rw [hpf]
    exact (congrArg (· ++ freeQ.held) hlink.freed).trans haccounts.freed
  · rw [haccounts.holds, Multiset.coe_card]
    simp only [List.length_append, List.length_map]
    omega

theorem new (D : Deployment ι) (i : ι) :
    (Thread.new (D.layout i) D.m₀ (D.accept i) (D.reading i)).Inv D i D.m₀ := by
  obtain ⟨⟨⟨sendQ, freeQ, hlink, hsent, hfreed⟩, -⟩, hpoller⟩ :=
    processor_settled (D.layout i) (fun _ _ => True) (D.blacklist i) D.m₀ (D.accept i) (D.reading i)
  refine ⟨⟨sendQ, freeQ, hlink.onMemory rfl fun _ _ => rfl, hsent, hfreed⟩, hpoller,
    fun _ => rfl, ?_, ?_⟩
  · intro current h
    exact absurd h.symm (Option.some_ne_none _)
  · intro a ha
    exact absurd ha List.not_mem_nil

/-- A packet to do is a packet held. -/
theorem mem_holds (h : t.Inv D i m) {a : Arrival} (ha : a ∈ t.todo) : a.rx.mbuf ∈ t.holds := by
  obtain ⟨sendQ, freeQ, haccounts⟩ := h.accounts
  rw [haccounts.holds, Multiset.mem_coe]
  exact List.mem_append_left _ (List.mem_map_of_mem ha)

/-- Neither the buffers of a thread nor the headers it has still to read are
    within reach of others. -/
theorem stable (hapart : D.Apart) (h : t.Inv D i m) {m' : Memory 64}
    (hmem : ∀ c, (∀ j, j ≠ i → ¬ (D.layout j).owns c) →
      (∀ r ∈ D.mbufs, r ∉ t.holds → ¬ c ∈ D.data r) → m' c = m c) : t.Inv D i m' := by
  have hown : ∀ b, (D.layout i).owns b → m' b = m b := by
    intro b hb
    apply hmem
    · intro j hj hother
      exact hapart.threads i j b (Ne.symm hj) hb hother
    · intro r hr _ hin
      exact hapart.buffers r hr i b hin hb
  have hheader : ∀ a ∈ t.todo, ∀ b, b ∈ a.rx.packet.header → m' b = m b := by
    intro a ha b hb
    obtain ⟨hall, hdata, -⟩ := h.arrivals a ha
    apply hmem
    · intro j _ hj
      exact hapart.buffers _ hall j b (hdata b hb) hj
    · intro r hr hnot hin
      have hne : r ≠ a.rx.mbuf := fun heq => hnot (heq ▸ h.mem_holds ha)
      exact hapart.data r hr _ hall hne b hin (hdata b hb)
  obtain ⟨sendQ, freeQ, haccounts⟩ := h.accounts
  refine ⟨⟨sendQ, freeQ, ⟨?_, haccounts.sent, haccounts.freed⟩⟩, h.poller, h.idle, ?_, ?_⟩
  · exact haccounts.linked.onMemory rfl fun b hb => hown b (Or.inr hb)
  · intro current hcurrent
    obtain ⟨n, k, hn, hk, hbefore, hpackets⟩ := h.loop current hcurrent
    refine ⟨n, k, hn, hk, hbefore, ?_⟩
    rw [← hpackets]
    congr 1
    apply packetsAt_congr (by omega)
    intro b hb
    exact hown b (Or.inl (pairs_within _ hn b hb))
  · intro a ha
    obtain ⟨hall, hdata, hpasses⟩ := h.arrivals a ha
    refine ⟨hall, hdata, ?_⟩
    rw [hpasses]
    exact a.rx.packet.passes_congr _ fun b hb => (hheader a ha b hb).symm

/-- What a poll keeps. -/
structure Polled (D : Deployment ι) (i : ι) (t : Thread) (m : Memory 64) (t' : Thread)
    (m' : Memory 64) : Prop where
  inv : t'.Inv D i m'
  frame : ∀ b, ¬ (D.layout i).owns b → m' b = m b
  nic : t'.world.nic = t.world.nic
  safe : t'.world.Safe ((D.layout i).allowed (t.todo.map Arrival.rx))

/-- What a pass of the loop keeps. -/
structure Passed (D : Deployment ι) (i : ι) (t : Thread) (m : Memory 64) (t' : Thread)
    (m' : Memory 64) : Prop where
  inv : t'.Inv D i m'
  frame : ∀ b, ¬ (D.layout i).owns b → m' b = m b
  logs : Extends t.world.nic t'.world.nic
  received : t'.inspected ++ t'.todo = t.inspected ++ t.todo
  safe : t'.world.Safe ((D.layout i).allowed (t.todo.map Arrival.rx))

/-- **Step lemma**, poll: what was delivered is what remains to be done. -/
theorem poll (hapart : D.Apart) (h : t.Inv D i m) (hidle : t.iterating = none) {e : MbufRings}
    (hposted : e.posted ≤ D.mbufs) {delivered : List RxMbuf}
    (hdeliverable : D.Deliverable e delivered) :
    Polled D i t m (t.poll (D.blacklist i) delivered m).1
      (t.poll (D.blacklist i) delivered m).2 := by
  have hlen := hdeliverable.length
  have hsep := hapart.separate i
  obtain ⟨hworld, hmemory, hhandlers, hpointer, hinspected, htodo⟩ :=
    poll_fields (D.blacklist i) t delivered m
  have hburst := t.proc.rp_ind.getBurst_world delivered (onMemory t.world m)
  rw [h.poller] at hburst hpointer
  -- the native stores, then the read of the count
  have hbuffer : ∀ kind b, b ∈ (⟨(D.layout i).rp, 2 + 16 * delivered.length⟩ : Region 64) →
      (D.layout i).allowed (t.todo.map Arrival.rx) kind b := by
    intro kind b hb
    exact Or.inl (burst_within (D.layout i) hlen b hb)
  have hreceive := nat_receive_burst_confined (D.layout i).rp delivered (onMemory t.world m)
    (by omega) (hbuffer .store)
  have hcount : World.Confined ((D.layout i).allowed (t.todo.map Arrival.rx))
      (nat_receive_burst (D.layout i).rp delivered (onMemory t.world m))
      ((nat_receive_burst (D.layout i).rp delivered (onMemory t.world m)).touch
        (D.layout i).rp 2) := by
    apply World.touch_confined
    intro b hb
    exact hbuffer .load b (Region.prefix_subset _ (by omega) b hb)
  have hconf := hreceive.trans hcount
  have hmem : ∀ b, b ∉ (D.layout i).rpRegion → (t.poll (D.blacklist i) delivered m).2 b = m b := by
    intro b hb
    rw [hmemory, hburst, World.touch_mem]
    exact nat_receive_burst_mem_outside _ _ _ (by omega)
      fun hin => hb (burst_within (D.layout i) hlen b hin)
  have hnic : (t.poll (D.blacklist i) delivered m).1.world.nic = t.world.nic := by
    rw [hworld, hburst, hconf.nic]
    rfl
  have hheader : ∀ r ∈ delivered, r.mbuf ∈ D.mbufs ∧
      ∀ b, b ∈ r.packet.header → (t.poll (D.blacklist i) delivered m).2 b = m b := by
    intro r hr
    have hin : r.mbuf ∈ D.mbufs := by
      apply Multiset.mem_of_le (hdeliverable.posted.trans hposted)
      exact Multiset.mem_coe.mpr (List.mem_map_of_mem hr)
    refine ⟨hin, fun b hb => hmem b fun hrp => ?_⟩
    exact hapart.buffers _ hin i b (hdeliverable.header r hr b hb) (Or.inl hrp)
  obtain ⟨sendQ, freeQ, haccounts⟩ := h.accounts
  refine ⟨⟨⟨sendQ, freeQ, ⟨?_, ?_, ?_⟩⟩, hpointer, ?_, ?_, ?_⟩, ?_, hnic, ?_⟩
  · rw [hhandlers]
    apply haccounts.linked.onMemory hnic
    rintro b (hb | hb)
    · exact hmem b (hsep.rp_ps.symm b hb)
    · exact hmem b (hsep.rp_pf.symm b hb)
  · rw [hinspected]
    exact haccounts.sent
  · rw [hinspected]
    exact haccounts.freed
  · intro hnone
    by_cases hnil : delivered = []
    · rw [htodo, hnil]
      rfl
    · obtain ⟨current, hsome, -⟩ := poll_cons (D.blacklist i) t delivered m hlen hnil
      rw [hsome] at hnone
      exact absurd hnone (Option.some_ne_none _)
  · intro current hcurrent
    by_cases hnil : delivered = []
    · rw [hnil, poll_nil, hidle] at hcurrent
      exact absurd hcurrent.symm (Option.some_ne_none _)
    · obtain ⟨current', hsome, hbefore⟩ := poll_cons (D.blacklist i) t delivered m hlen hnil
      obtain rfl : current' = current := Option.some.inj (hsome.symm.trans hcurrent)
      have hpackets := t.proc.rp_ind.getBurst_packetsAt delivered (onMemory t.world m) (by omega)
      rw [h.poller] at hbefore hpackets
      refine ⟨delivered.length, 0, hlen, by rw [htodo]; simp, hbefore, ?_⟩
      rw [hmemory, hpackets, htodo, List.drop_zero, List.map_map]
      rfl
  · rw [htodo]
    intro a ha
    obtain ⟨r, hr, rfl⟩ := List.mem_map.mp ha
    obtain ⟨hin, hkept⟩ := hheader r hr
    refine ⟨hin, hdeliverable.header r hr, ?_⟩
    exact r.packet.passes_congr _ fun b hb => (hkept b hb).symm
  · intro b hb
    exact hmem b fun hrp => hb (Or.inl hrp)
  · rw [hworld, hburst]
    apply hconf.safe
    intro acc hacc
    exact absurd hacc List.not_mem_nil

/-- The body of the loop gives the first packet to do to the queue that its
    header decides. -/
theorem bodyResult_linked (hapart : D.Apart) (h : t.Inv D i m) {current : JInt}
    (hcurrent : t.iterating = some current) {a : Arrival} {rest : List Arrival}
    (htodo : t.todo = a :: rest) :
    ∃ sendQ freeQ, Linked (D.layout i) ((D.layout i).allowed (t.todo.map Arrival.rx)) m sendQ freeQ
        (bodyResult (D.blacklist i) t m current).2.1 (bodyResult (D.blacklist i) t m current).2.2 ∧
      sendQ.given = ((t.inspected ++ [a]).filter fun a => a.passes).map (fun a => a.rx.mbuf) ∧
      freeQ.given = ((t.inspected ++ [a]).filter fun a => !a.passes).map (fun a => a.rx.mbuf) ∧
      Extends t.world.nic (bodyResult (D.blacklist i) t m current).2.2.nic := by
  obtain ⟨n, k, hn, hk, hbefore, hpackets⟩ := h.loop current hcurrent
  obtain ⟨sendQ, freeQ, haccounts⟩ := h.accounts
  have hlt : k < n := by
    rw [htodo, List.length_cons] at hk
    omega
  obtain ⟨-, hreturned, hw⟩ :=
    PacketList.next_spec hbefore (show k < 2 ^ 16 by omega) (onMemory t.world m)
  have harrival := h.arrivals a (by rw [htodo]; exact List.mem_cons_self ..)
  -- the iterator reads the pair of the packet to do
  have hpacket : PacketList.pairAt m (cell (D.layout i).rp 2) k = a.rx.packet := by
    have hget := PacketList.packetsAt_getElem? m (cell (D.layout i).rp 2) hlt
    have hhead := congrArg (fun l => l[0]?) hpackets
    simp only [List.getElem?_drop, Nat.add_zero, hget, htodo, List.map_cons,
      List.getElem?_cons_zero, Option.some.injEq] at hhead
    exact hhead
  have hpairs := pairs_within (D.layout i) hn
  have hword : ∀ j, j + 8 ≤ 16 * n → ∀ b, b ∈ (⟨cell (cell (D.layout i).rp 2) j, 8⟩ : Region 64) →
      (D.layout i).allowed (t.todo.map Arrival.rx) .load b := by
    intro j hj b hb
    exact Or.inl (hpairs b (cell_subset _ _ j 8 hj (by omega) b hb))
  have hread : Linked (D.layout i) ((D.layout i).allowed (t.todo.map Arrival.rx)) m sendQ freeQ
      t.proc.toHandlers (t.proc.rp_ind.packets.next current (onMemory t.world m)).2.2 := by
    rw [hw]
    exact (haccounts.linked.onMemory rfl fun _ _ => rfl).confined
      ((World.touch_confined _ (hword _ (by omega))).trans
        (World.touch_confined _ (hword _ (by omega)))) rfl
  have hpasses : a.rx.packet.passes (D.blacklist i)
      (t.proc.rp_ind.packets.next current (onMemory t.world m)).2.2.mem = a.passes := by
    rw [hw]
    exact harrival.2.2.symm
  obtain ⟨sendQ', freeQ', hlink, hsent, hfreed, hextends⟩ := body_linked hread
    (hapart.separate i) (fun _ b hb => Or.inr (Or.inl hb))
    (fun _ b hb => Or.inr (Or.inr (Or.inl hb))) (D.blacklist i) a.rx.packet
    (fun b hb => Or.inr (Or.inr (Or.inr ⟨rfl, a.rx, by rw [htodo]; simp, hb⟩)))
    (t.proc.rp_ind.packets.next current (onMemory t.world m)).2.1.ua_packet
  rw [onMemory_mem, hpacket] at hreturned
  have hresult : FirewallProcessor.body (D.blacklist i) a.rx.packet
      (t.proc.rp_ind.packets.next current (onMemory t.world m)).2.1.ua_packet t.proc.toHandlers
      (t.proc.rp_ind.packets.next current (onMemory t.world m)).2.2 =
        bodyResult (D.blacklist i) t m current := by
    rw [bodyResult, ← hreturned]
  rw [hresult] at hlink hextends
  rw [hpasses] at hsent hfreed
  rw [hw] at hextends
  refine ⟨sendQ', freeQ', hlink, ?_, ?_, hextends⟩
  · rw [hsent, haccounts.sent, List.filter_append, List.map_append]
    by_cases hpass : a.passes = true <;> simp [hpass, RxMbuf.packet]
  · rw [hfreed, haccounts.freed, List.filter_append, List.map_append]
    by_cases hpass : a.passes = true <;> simp [hpass, RxMbuf.packet]

/-- A pass with a packet to inspect. -/
theorem pass_more (hapart : D.Apart) (h : t.Inv D i m) {current : JInt}
    (hcurrent : t.iterating = some current)
    (hnext : t.proc.rp_ind.packets.hasNext current = true) :
    Passed D i t m (t.pass (D.blacklist i) current m).1
      (t.pass (D.blacklist i) current m).2 := by
  obtain ⟨n, k, hn, hk, hbefore, hpackets⟩ := h.loop current hcurrent
  have hlt : k < n := (PacketList.hasNext_iff hbefore (show n < 2 ^ 16 by omega)
    (show k ≤ n by omega)).mp hnext
  obtain ⟨a, rest, htodo⟩ := List.exists_cons_of_length_pos (show 0 < t.todo.length by omega)
  obtain ⟨hworld, hmemory, hhandlers, hpointer, hinspected, htodo'⟩ :=
    pass_fields (D.blacklist i) t m current hnext
  obtain ⟨sendQ', freeQ', hlink, hsent, hfreed, hextends⟩ :=
    h.bodyResult_linked hapart hcurrent htodo
  have hpairs := pairs_within (D.layout i) hn
  have hframe : ∀ b, b ∉ (D.layout i).psRegion → b ∉ (D.layout i).pfRegion →
      (t.pass (D.blacklist i) current m).2 b = m b := by
    intro b hps hpf
    rw [hmemory]
    exact hlink.frame b hps hpf
  refine ⟨⟨⟨sendQ', freeQ', ⟨?_, ?_, ?_⟩⟩, hpointer.trans h.poller, ?_, ?_, ?_⟩, ?_, ?_, ?_, ?_⟩
  · rw [hhandlers, hmemory]
    exact hlink.onMemory (by rw [hworld]) fun _ _ => rfl
  · rw [hinspected, htodo]
    exact hsent
  · rw [hinspected, htodo]
    exact hfreed
  · intro hnone
    obtain ⟨current', hsome, -⟩ :=
      pass_iterating (D.blacklist i) t m current hnext hbefore (show k < 2 ^ 16 by omega)
    rw [hsome] at hnone
    exact absurd hnone (Option.some_ne_none _)
  · intro current' hcurrent'
    obtain ⟨current'', hsome, hbefore'⟩ :=
      pass_iterating (D.blacklist i) t m current hnext hbefore (show k < 2 ^ 16 by omega)
    obtain rfl : current'' = current' := Option.some.inj (hsome.symm.trans hcurrent')
    refine ⟨n, k + 1, hn, ?_, hbefore', ?_⟩
    · rw [htodo', List.length_drop]
      omega
    · have hkept : packetsAt (t.pass (D.blacklist i) current m).2 (cell (D.layout i).rp 2) n =
          packetsAt m (cell (D.layout i).rp 2) n := by
        apply packetsAt_congr (by omega)
        intro b hb
        exact hframe b ((hapart.separate i).rp_ps b (hpairs b hb))
          ((hapart.separate i).rp_pf b (hpairs b hb))
      rw [hkept, htodo', List.map_drop, ← hpackets, List.drop_drop]
  · intro a' ha'
    rw [htodo'] at ha'
    obtain ⟨hin, hdata, hpasses'⟩ := h.arrivals a' (List.mem_of_mem_drop ha')
    refine ⟨hin, hdata, ?_⟩
    rw [hpasses']
    apply a'.rx.packet.passes_congr
    intro b hb
    have hout := hapart.buffers _ hin i b (hdata b hb)
    exact (hframe b (fun hps => hout (Or.inr (Or.inl hps)))
      fun hpf => hout (Or.inr (Or.inr hpf))).symm
  · intro b hb
    exact hframe b (fun hps => hb (Or.inr (Or.inl hps))) fun hpf => hb (Or.inr (Or.inr hpf))
  · rw [hworld]
    exact hextends
  · rw [hinspected, htodo', List.append_assoc, List.take_append_drop]
  · rw [hworld]
    exact hlink.safe

/-- The end of the loop. -/
theorem pass_end (h : t.Inv D i m) {current : JInt} (hcurrent : t.iterating = some current)
    (hnot : t.proc.rp_ind.packets.hasNext current = false) :
    Passed D i t m (t.pass (D.blacklist i) current m).1
      (t.pass (D.blacklist i) current m).2 := by
  obtain ⟨n, k, hn, hk, hbefore, -⟩ := h.loop current hcurrent
  obtain ⟨sendQ, freeQ, haccounts⟩ := h.accounts
  have hlt : ¬ k < n := by
    rw [← PacketList.hasNext_iff hbefore (show n < 2 ^ 16 by omega) (show k ≤ n by omega), hnot]
    exact Bool.noConfusion
  have hdone : t.todo = [] := List.eq_nil_of_length_eq_zero (by omega)
  have hpass : t.pass (D.blacklist i) current m =
      ({ t with iterating := none, world := onMemory t.world m }, m) := by
    unfold Thread.pass
    simp only [hnot, Bool.false_eq_true, if_false]
  rw [hpass]
  refine ⟨⟨⟨sendQ, freeQ, ⟨haccounts.linked.onMemory rfl fun _ _ => rfl, haccounts.sent,
    haccounts.freed⟩⟩, h.poller, fun _ => hdone, ?_, h.arrivals⟩, fun _ _ => rfl,
    ⟨List.prefix_refl _, List.prefix_refl _⟩, rfl, ?_⟩
  · intro current' hcurrent'
    exact absurd hcurrent'.symm (Option.some_ne_none _)
  · intro acc hacc
    exact absurd hacc List.not_mem_nil

/-- **Step lemma**, pass: the next packet goes where its header says. -/
theorem pass (hapart : D.Apart) (h : t.Inv D i m) {current : JInt}
    (hcurrent : t.iterating = some current) :
    Passed D i t m (t.pass (D.blacklist i) current m).1
      (t.pass (D.blacklist i) current m).2 := by
  by_cases hnext : t.proc.rp_ind.packets.hasNext current = true
  · exact h.pass_more hapart hcurrent hnext
  · exact h.pass_end hcurrent (Bool.not_eq_true _ ▸ hnext)

/-! ### What changes hands -/

theorem received_eq (h : t.Inv D i m) :
    (((t.inspected ++ t.todo).map fun a => a.rx.mbuf : List Mbuf) : Multiset Mbuf) =
      (t.world.nic.freed ++ presented t.world.nic.txBursts : List Mbuf) + t.holds := by
  obtain ⟨sendQ, freeQ, haccounts⟩ := h.accounts
  exact haccounts.received_eq

/-- A poll adds what was delivered. -/
theorem holds_poll (hapart : D.Apart) (h : t.Inv D i m) (hidle : t.iterating = none)
    {e : MbufRings} (hposted : e.posted ≤ D.mbufs) {delivered : List RxMbuf}
    (hdeliverable : D.Deliverable e delivered) :
    (t.poll (D.blacklist i) delivered m).1.holds =
      t.holds + (delivered.map RxMbuf.mbuf : List Mbuf) := by
  obtain ⟨-, -, -, -, hinspected, htodo⟩ := poll_fields (D.blacklist i) t delivered m
  obtain ⟨hinv, -, hnic, -⟩ := h.poll hapart hidle hposted hdeliverable
  have hbefore := h.received_eq
  have hafter := hinv.received_eq
  rw [h.idle hidle, List.append_nil] at hbefore
  rw [hnic, hinspected, htodo, List.map_append, ← Multiset.coe_add, hbefore, List.map_map,
    add_assoc] at hafter
  exact (add_left_cancel hafter).symm

/-- A pass takes away what the NIC has got. -/
theorem holds_pass (hapart : D.Apart) (h : t.Inv D i m) {current : JInt}
    (hcurrent : t.iterating = some current) (e : MbufRings) :
    let t' := (t.pass (D.blacklist i) current m).1
    (e.takeOver t.world.nic t'.world.nic).kept + t'.holds = e.kept + t.holds := by
  obtain ⟨hinv, -, ⟨⟨freed, hfreed⟩, bursts, hbursts⟩, hsame, -⟩ := h.pass hapart hcurrent
  have hbefore := h.received_eq
  have hafter := hinv.received_eq
  intro t'
  rw [hsame, hbefore, ← hfreed, ← hbursts, presented_append] at hafter
  -- a presented mbuf is taken or refused
  have hpresented : (presented bursts : Multiset Mbuf) =
      (owned bursts : Multiset Mbuf) + (rejected bursts : List Mbuf) := by
    rw [Multiset.coe_add]
    exact Multiset.coe_eq_coe.mpr (owned_append_rejected_perm bursts).symm
  have hholds : t.holds = (freed : Multiset Mbuf) + (presented bursts : List Mbuf) + t'.holds := by
    have hsplit : ((t.world.nic.freed ++ freed ++ (presented t.world.nic.txBursts ++
        presented bursts) : List Mbuf) : Multiset Mbuf) =
        (t.world.nic.freed ++ presented t.world.nic.txBursts : List Mbuf) +
          ((freed : Multiset Mbuf) + (presented bursts : List Mbuf)) := by
      simp only [← Multiset.coe_add]
      abel
    rw [hsplit, add_assoc] at hafter
    exact add_left_cancel hafter
  have hdrops : t'.world.nic.freed.drop t.world.nic.freed.length = freed ∧
      t'.world.nic.txBursts.drop t.world.nic.txBursts.length = bursts := by
    rw [← hfreed, ← hbursts, List.drop_left, List.drop_left]
    exact ⟨rfl, rfl⟩
  rw [hholds, hpresented]
  simp only [MbufRings.takeOver, MbufRings.kept, hdrops]
  abel

end Inv

end Thread

/-! ## Section 4: Every interleaving -/

section system
variable {ι : Type} (D : Deployment ι)

theorem Deployment.posted_le {i : ι} {d : Lending.Desk Thread MbufRings Addr (BitVec 8)}
    (h : D.books.Within D.mbufs i d) : d.keeper.posted ≤ D.mbufs := by
  have hsplit : D.books.kept d.keeper + D.books.held i d.thread = d.keeper.posted +
      (d.keeper.pool + d.keeper.transmitting + d.keeper.lost + D.books.held i d.thread) := by
    simp only [Deployment.books, MbufRings.kept]
    abel
  refine le_trans ?_ h
  rw [hsplit]
  exact Multiset.le_add_right _ _

/-- The threads and the NIC meet the contract of the lending rule. -/
theorem Deployment.contract (hapart : D.Apart) :
    Lending.Contract D.parties D.books D.mbufs fun i t m => t.Inv D i m where
  keeps i a d d' hinv hwithin hact := by
    cases a with
    | poll delivered =>
      obtain ⟨hidle, hdeliverable, rfl⟩ := hact
      exact (hinv.poll hapart hidle (D.posted_le hwithin) hdeliverable).inv
    | pass =>
      obtain ⟨current, hcurrent, rfl⟩ := hact
      exact (hinv.pass hapart hcurrent).inv
  conserves i a d d' hinv hwithin hact := by
    cases a with
    | poll delivered =>
      obtain ⟨hidle, hdeliverable, rfl⟩ := hact
      have hholds := hinv.holds_poll hapart hidle (D.posted_le hwithin) hdeliverable
      have hposted := tsub_add_cancel_of_le hdeliverable.posted
      simp only [Deployment.books, MbufRings.kept]
      rw [hholds]
      nth_rewrite 2 [← hposted]
      generalize d.keeper.posted - (delivered.map RxMbuf.mbuf : List Mbuf) = rest
      abel
    | pass =>
      obtain ⟨current, hcurrent, rfl⟩ := hact
      exact hinv.holds_pass hapart hcurrent d.keeper
  frame i a d d' hinv hwithin hact := by
    cases a with
    | poll delivered =>
      obtain ⟨hidle, hdeliverable, rfl⟩ := hact
      exact (hinv.poll hapart hidle (D.posted_le hwithin) hdeliverable).frame
    | pass =>
      obtain ⟨current, hcurrent, rfl⟩ := hact
      exact (hinv.pass hapart hcurrent).frame
  serves b e m e' m' hserve := by
    cases b with
    | post r =>
      obtain ⟨hr, rfl, rfl⟩ := hserve
      refine ⟨?_, fun _ _ => rfl⟩
      simp only [Deployment.books, MbufRings.kept]
      nth_rewrite 2 [← Multiset.cons_erase hr]
      simp only [← Multiset.singleton_add]
      abel
    | write r =>
      obtain ⟨hr, rfl, hmem⟩ := hserve
      refine ⟨rfl, fun c hc => hmem c (hc r ?_)⟩
      simp only [Deployment.books, MbufRings.kept, Multiset.mem_add]
      exact Or.inl (Or.inl (Or.inr hr))
    | complete r =>
      obtain ⟨hr, rfl, rfl⟩ := hserve
      refine ⟨?_, fun _ _ => rfl⟩
      simp only [Deployment.books, MbufRings.kept]
      nth_rewrite 2 [← Multiset.cons_erase hr]
      simp only [← Multiset.singleton_add]
      abel
  stable i t m m' hinv hmem := hinv.stable hapart hmem

variable [Fintype ι] [DecidableEq ι]

theorem Deployment.invariant (hapart : D.Apart) {s : Deployment.SystemState ι}
    (hreach : Reachable D.system s) :
    Lending.Balanced D.books D.mbufs s ∧ ∀ i, (s.threads i).Inv D i s.store := by
  apply (D.contract hapart).invariant hapart.nodup ?_ hreach
  rintro s rfl
  refine ⟨?_, fun i => Thread.Inv.new D i⟩
  -- at first everything is in the pool
  have hnone : ∀ i, (Thread.new (D.layout i) D.m₀ (D.accept i) (D.reading i)).holds = 0 :=
    fun i => zero_tsub _
  simp only [Lending.Balanced, Deployment.books, MbufRings.kept, hnone, Finset.sum_const_zero,
    add_zero]

/-- **Main**: for every number of threads, and every interleaving of their polls
    and passes with the steps of the NIC, each mbuf is in one place, once, and
    each thread sends and frees what it should. -/
theorem mbufs_circulate (hapart : D.Apart) {s : Deployment.SystemState ι}
    (hreach : Reachable D.system s) :
    s.keeper.kept + ∑ i, (s.threads i).holds = D.mbufs ∧
    (∀ i, (s.threads i).Works s.store) ∧
    D.mbufs.card ≤ (s.keeper.pool + s.keeper.posted + s.keeper.transmitting).card +
      s.keeper.lost.card + 542 * Fintype.card ι := by
  obtain ⟨hbalanced, hinv⟩ := D.invariant hapart hreach
  refine ⟨hbalanced, fun i => (hinv i).works, ?_⟩
  have hheld : ∑ i, (s.threads i).holds.card ≤ ∑ _i : ι, 542 :=
    Finset.sum_le_sum fun i _ => (hinv i).works.bounded
  have hcard : s.keeper.kept.card + ∑ i, (s.threads i).holds.card = D.mbufs.card := by
    rw [← hbalanced, Multiset.card_add, Multiset.card_sum]
    rfl
  rw [Finset.sum_const_nat fun _ _ => rfl, Finset.card_univ] at hheld
  simp only [MbufRings.kept, Multiset.card_add] at hcard ⊢
  omega

theorem held_alone (hapart : D.Apart) {s : Deployment.SystemState ι}
    (hreach : Reachable D.system s) {i : ι} {p : Arrival} (hp : p ∈ (s.threads i).todo) :
    HeldAlone s i p.rx.mbuf := by
  obtain ⟨hbalanced, hinv⟩ := D.invariant hapart hreach
  have hheld := (hinv i).mem_holds hp
  refine ⟨hheld, ?_, ?_⟩
  · intro hkept
    exact hbalanced.not_held hapart.nodup hkept i hheld
  · intro j hj
    exact hbalanced.not_held_twice hapart.nodup hj hheld

/-- **Main**: whatever the others do, a step of a thread accesses its buffers
    and, for reading, headers of packets that it holds alone and that are still
    as they arrived. The mbufs whose structures a poll reads are its own too. -/
theorem accesses_held (hapart : D.Apart) {s s' : Deployment.SystemState ι}
    (hreach : Reachable D.system s) {i : ι} {a : ThreadStep}
    (hstep : D.system.step s (.thread i a) s') :
    (s'.threads i).world.Safe ((D.layout i).allowed ((s.threads i).todo.map Arrival.rx)) ∧
    (∀ p ∈ (s.threads i).todo, p.passes = p.rx.packet.passes (D.blacklist i) s.store ∧
      (∀ b, b ∈ p.rx.packet.header → b ∈ D.data p.rx.mbuf) ∧ HeldAlone s i p.rx.mbuf) ∧
    ∀ delivered, a = .poll delivered → ∀ r ∈ delivered, HeldAlone s' i r.mbuf := by
  obtain ⟨hbalanced, hinv⟩ := D.invariant hapart hreach
  refine ⟨?_, ?_, ?_⟩
  · obtain ⟨d, hact, rfl⟩ := hstep
    simp only [Function.update_self]
    cases a with
    | poll delivered =>
      obtain ⟨hidle, hdeliverable, rfl⟩ := hact
      exact ((hinv i).poll hapart hidle (D.posted_le (hbalanced.within i)) hdeliverable).safe
    | pass =>
      obtain ⟨current, hcurrent, rfl⟩ := hact
      exact ((hinv i).pass hapart hcurrent).safe
  · intro p hp
    obtain ⟨-, hdata, hpasses⟩ := (hinv i).arrivals p hp
    exact ⟨hpasses, hdata, held_alone D hapart hreach hp⟩
  · rintro delivered rfl r hr
    have hreach' := hreach.step hstep
    obtain ⟨d, ⟨-, -, rfl⟩, rfl⟩ := hstep
    -- what a poll returns is what the thread has to inspect then
    apply held_alone D hapart hreach' (p := ⟨r, r.packet.passes (D.blacklist i) s.store⟩)
    simp only [Function.update_self]
    rw [(Thread.poll_fields _ _ _ _).2.2.2.2.2]
    exact List.mem_map_of_mem hr

end system

/-- Two threads with buffers in pages of their own, and two mbufs below them. -/
def sampleMachine : Deployment Bool where
  blacklist _ := ∅
  layout i := if i then ⟨0x10000, 0x20000, 0x30000⟩ else ⟨0x40000, 0x50000, 0x60000⟩
  mbufs := {0x1000, 0x1800}
  data r := ⟨r, 0x800⟩
  accept _ _ n := Fin.last n
  reading _ _ := 0
  m₀ _ := 0

theorem sampleMachine_apart : sampleMachine.Apart := by
  have hmbufs : ∀ r ∈ sampleMachine.mbufs, r = 0x1000 ∨ r = 0x1800 := by
    intro r hr
    simpa [sampleMachine] using hr
  -- the buffers of the one thread lie below those of the other
  have hbelow : ∀ b, (sampleMachine.layout true).owns b →
      ¬ (sampleMachine.layout false).owns b := by
    rintro b (hb | hb | hb) (hc | hc | hc) <;>
      exact Region.disjoint_of_le (by decide) (by decide) b hb hc
  constructor
  · intro i
    cases i <;> constructor <;> exact Region.disjoint_of_le (by decide) (by decide)
  · intro i j b hne hi hj
    cases i <;> cases j
    · exact hne rfl
    · exact hbelow b hj hi
    · exact hbelow b hi hj
    · exact hne rfl
  · decide
  · intro r hr r' hr' hne
    rcases hmbufs r hr with rfl | rfl <;> rcases hmbufs r' hr' with rfl | rfl
    · exact absurd rfl hne
    · exact Region.disjoint_of_le (by decide) (by decide)
    · exact (Region.disjoint_of_le (by decide) (by decide)).symm
    · exact absurd rfl hne
  · intro r hr i b hb
    rcases hmbufs r hr with rfl | rfl <;> cases i <;> rintro (hc | hc | hc) <;>
      exact Region.disjoint_of_le (by decide) (by decide) b hb hc

/-- A packet in the first mbuf, behind its header structure. -/
def sampleRx : RxMbuf := ⟨0x1000, 0x1100⟩

/-- The first mbuf is posted, filled with an IPv4 packet, and received. -/
theorem sampleMachine_received :
    ∃ s current, Reachable sampleMachine.system s ∧
      (s.threads true).todo.map Arrival.rx = [sampleRx] ∧
      (s.threads true).iterating = some current := by
  have hstart : Reachable sampleMachine.system _ := Reachable.init rfl
  have hposted := Lending.reachable_keeper hstart (b := .post 0x1000) ⟨by decide, rfl, rfl⟩
  have hwritten := Lending.reachable_keeper hposted (b := .write 0x1000)
    (m := fun b => if b ∈ sampleMachine.data 0x1000 then 0x45 else 0)
    ⟨by decide, rfl, fun b hb => if_neg hb⟩
  have hreceived := Lending.reachable_thread hwritten (i := true) (a := .poll [sampleRx])
    ⟨rfl, ⟨by decide, by decide, ?_⟩, rfl⟩
  · obtain ⟨current, hsome, -⟩ := Thread.poll_cons (sampleMachine.blacklist true)
      (Thread.new (sampleMachine.layout true) sampleMachine.m₀ (sampleMachine.accept true)
        (sampleMachine.reading true)) [sampleRx] _ (by decide) (List.cons_ne_nil _ _)
    refine ⟨_, current, hreceived, ?_, ?_⟩
    · simp only [Function.update_self]
      rw [(Thread.poll_fields _ _ _ _).2.2.2.2.2]
      rfl
    · simp only [Function.update_self]
      exact hsome
  · intro r hr
    rw [List.mem_singleton.mp hr]
    exact Region.slice_subset (sampleMachine.data 0x1000) 0x10e 20 (by decide) (by decide)

/-- While the first thread has the packet. -/
theorem mbufs_circulate_received :
    ∃ s, Reachable sampleMachine.system s ∧
      (s.threads true).todo.map Arrival.rx = [sampleRx] ∧
      s.keeper.kept + ∑ i, (s.threads i).holds = {0x1000, 0x1800} ∧
      (∀ i, (s.threads i).Works s.store) ∧
      2 ≤ (s.keeper.pool + s.keeper.posted + s.keeper.transmitting).card +
        s.keeper.lost.card + 542 * Fintype.card Bool := by
  obtain ⟨s, current, hreach, htodo, -⟩ := sampleMachine_received
  exact ⟨s, hreach, htodo, mbufs_circulate sampleMachine sampleMachine_apart hreach⟩

/-- When it inspects it. -/
theorem accesses_held_inspecting :
    ∃ s s', Reachable sampleMachine.system s ∧
      sampleMachine.system.step s (.thread true .pass) s' ∧
      (s'.threads true).world.Safe ((sampleMachine.layout true).allowed [sampleRx]) ∧
      HeldAlone s true sampleRx.mbuf := by
  obtain ⟨s, current, hreach, htodo, hcurrent⟩ := sampleMachine_received
  have hstep : sampleMachine.system.step s (.thread true .pass) _ :=
    ⟨_, ⟨current, hcurrent, rfl⟩, rfl⟩
  obtain ⟨hsafe, hheld, -⟩ := accesses_held sampleMachine sampleMachine_apart hreach hstep
  have hrx : sampleRx ∈ (s.threads true).todo.map Arrival.rx := by
    rw [htodo]
    exact List.mem_singleton_self _
  obtain ⟨p, hp, hpacket⟩ := List.mem_map.mp hrx
  refine ⟨s, _, hreach, hstep, htodo ▸ hsafe, ?_⟩
  rw [← hpacket]
  exact (hheld p hp).2.2

end PacketPro.DpdkJavaR
