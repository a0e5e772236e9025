import PacketPro.Framework.Memory
import PacketPro.Framework.Batching

/-! # The World Around One Thread

    The state that the Java and the C side of the framework share: native
    memory with its access log, the NIC as seen through `rte_eth_tx_burst` and
    `rte_pktmbuf_free`, and the system clock.

    What the environment decides is an oracle: how many mbufs of a batch the
    transmit ring accepts, and what `System.currentTimeMillis` returns. The
    results of `rte_eth_rx_burst` are not an oracle but an input of each poll.
-/

open ByteMem Batching

namespace PacketPro

/-! ### Machine types -/

/-- A native address, also as a Java `long`. -/
abbrev Addr : Type := BitVec 64
/-- `struct rte_mbuf *`. -/
abbrev Mbuf : Type := BitVec 64
abbrev JByte : Type := BitVec 8
abbrev JShort : Type := BitVec 16
abbrev JInt : Type := BitVec 32
abbrev JLong : Type := BitVec 64

/-- One entry of an `rte_eth_rx_burst` result: the mbuf and the address
    `rte_pktmbuf_mtod` gives for its packet data at that moment. -/
structure RxMbuf where
  mbuf : Mbuf
  data : Addr
  deriving DecidableEq, Repr

/-- `sizeof(struct ether_hdr)`. -/
def etherHdrSize : Nat := 14

/-- Where the IP header of a received packet starts. -/
def RxMbuf.ip (r : RxMbuf) : Addr := r.data + BitVec.ofNat 64 etherHdrSize

/-! ### State -/

/-- The NIC: what the transmit ring will accept, and what it has been given. -/
structure Nic where
  /-- Return value of the `k`-th `rte_eth_tx_burst`, for a batch of `n`. -/
  accept : Nat → (n : Nat) → Fin (n + 1)
  /-- The transmit bursts so far, oldest first. -/
  txBursts : List (Delivery Mbuf)
  /-- The mbufs freed so far, oldest first. -/
  freed : List Mbuf
  /-- How many mbufs each call of `nat_free_packets` was handed. -/
  freeCounts : List Nat

/-- The values `System.currentTimeMillis` will return, and how many were read. -/
structure Clock where
  reading : Nat → JLong
  ticks : Nat

structure World where
  heap : Heap 64
  nic : Nic
  clock : Clock
  /-- Indices stored to in the local array `pkts_burst`. -/
  burstSlots : List Nat
  /-- Stack traces printed for out-of-range values. -/
  reports : Nat

namespace World

/-- The world at start-up: nothing sent, freed or accessed yet. -/
def boot (mem : Memory 64) (accept : Nat → (n : Nat) → Fin (n + 1)) (reading : Nat → JLong) :
    World where
  heap := ⟨mem, []⟩
  nic := ⟨accept, [], [], []⟩
  clock := ⟨reading, 0⟩
  burstSlots := []
  reports := 0

/-- A world for concrete runs: the given memory, every batch accepted whole, a
    clock that stands still. -/
def quiet (mem : Memory 64) : World := boot mem (fun _ n => Fin.last n) (fun _ => 0)

/-- Contents of native memory. -/
def mem (w : World) : Memory 64 := w.heap.mem

/-- Store the low `n` bytes of `v` at `a`. -/
def store (w : World) (a : Addr) (n v : Nat) : World :=
  { w with heap := w.heap.store a n v }

/-- Record a load of `n` bytes at `a`. -/
def touch (w : World) (a : Addr) (n : Nat) : World :=
  { w with heap := w.heap.touch a n }

/-- `System.currentTimeMillis()`. -/
def currentTimeMillis (w : World) : JLong × World :=
  (w.clock.reading w.clock.ticks, { w with clock := { w.clock with ticks := w.clock.ticks + 1 } })

/-- Every byte accessed so far was accessed in an allowed way. -/
def Safe (allowed : AccessKind → Addr → Prop) (w : World) : Prop := w.heap.Safe allowed

@[simp] theorem store_mem (w : World) (a : Addr) (n v : Nat) :
    (w.store a n v).mem = storeLE w.mem a n v := rfl

@[simp] theorem touch_mem (w : World) (a : Addr) (n : Nat) : (w.touch a n).mem = w.mem := rfl

/-! ### Confined steps

    Most functions of the framework only read and write native memory. What
    such a step may touch is a parameter: one lemma per function then gives
    both that everything else is unchanged and that no access strays. -/

/-- From `w` to `w'` only memory was accessed, and only in allowed ways. -/
structure Confined (allowed : AccessKind → Addr → Prop) (w w' : World) : Prop where
  nic : w'.nic = w.nic
  clock : w'.clock = w.clock
  burstSlots : w'.burstSlots = w.burstSlots
  safe : w.Safe allowed → w'.Safe allowed

variable {allowed : AccessKind → Addr → Prop}

theorem Confined.refl (w : World) : Confined allowed w w := ⟨rfl, rfl, rfl, id⟩

theorem Confined.trans {w₁ w₂ w₃ : World} (h : Confined allowed w₁ w₂)
    (h' : Confined allowed w₂ w₃) : Confined allowed w₁ w₃ :=
  ⟨h'.nic.trans h.nic, h'.clock.trans h.clock, h'.burstSlots.trans h.burstSlots,
    fun hs => h'.safe (h.safe hs)⟩

theorem store_confined (w : World) {a : Addr} {n : Nat} (v : Nat)
    (ha : ∀ b, b ∈ (⟨a, n⟩ : Region 64) → allowed .store b) :
    Confined allowed w (w.store a n v) :=
  ⟨rfl, rfl, rfl, fun hs => Heap.Safe.store hs v ha⟩

theorem touch_confined (w : World) {a : Addr} {n : Nat}
    (ha : ∀ b, b ∈ (⟨a, n⟩ : Region 64) → allowed .load b) :
    Confined allowed w (w.touch a n) :=
  ⟨rfl, rfl, rfl, fun hs => Heap.Safe.touch hs ha⟩

end World

end PacketPro
