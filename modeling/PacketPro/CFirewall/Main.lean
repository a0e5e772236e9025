import Mathlib.Logic.Function.Basic
import PacketPro.Native.Utils

/-! # `c_apps/firewall/main.c`: The Packet Path of the C Firewall

    `main_loop` polls into the array `rx_mbufs`, strips the Ethernet header of
    each mbuf and looks its destination address up in the blacklist. Packets
    that pass are collected in `send_list`; the 512th one sends the list, and
    the mbufs that the NIC does not take are freed at once.

    A null pointer from `rte_pktmbuf_adj` is dereferenced by the source, so
    the functions that call it return `none` there: the process has ended.
-/

open ByteMem Batching

namespace PacketPro.CFirewall

/-! ## Section 1: Data -/

def MAX_PKT_BURST : Nat := 512

/-- The fields of a `struct rte_mbuf` that the program uses, for an mbuf of one
    segment; `data` is `buf_addr + data_off`. -/
structure MbufFields where
  data : Addr
  data_len : BitVec 16
  pkt_len : BitVec 32
  deriving DecidableEq, Repr

/-- One mbuf as `rte_eth_rx_burst` hands it out. -/
structure RxFrame extends MbufFields where
  mbuf : Mbuf
  deriving DecidableEq, Repr

/-- A result of `rte_eth_rx_burst`: at most as many mbufs as were asked for,
    no mbuf twice, and native memory as the NIC leaves it. -/
structure RxBurst where
  frames : List RxFrame
  mem : Memory 64
  bound : frames.length ≤ MAX_PKT_BURST
  distinct : (frames.map RxFrame.mbuf).Nodup

/-- An mbuf as `rte_eth_tx_burst` is shown it, with the bytes it describes. -/
structure TxFrame where
  mbuf : Mbuf
  bytes : List (BitVec 8)

/-- `struct mbuf_list`. -/
structure MbufList where
  len : Nat
  list : Nat → Mbuf

/-- What `main_loop` calls for a packet. -/
inductive Call where
  | send_packet (m : Mbuf)
  | free_packet (m : Mbuf)
  deriving DecidableEq, Repr

/-- The file-scope variables, the mbufs, and what the NIC was given. -/
structure State where
  mem : Memory 64
  mbufs : Mbuf → MbufFields
  rx_mbufs : Nat → Mbuf
  send_list : MbufList
  /-- Return value of the `k`-th `rte_eth_tx_burst`, for a batch of `n`. -/
  accept : Nat → (n : Nat) → Fin (n + 1)
  txBursts : List (Delivery TxFrame)
  freed : List Mbuf
  /-- The calls of `main_loop`, oldest first. -/
  calls : List Call

/-- The state at start-up: the arrays and the list are zero. -/
def State.boot (mem : Memory 64) (mbufs : Mbuf → MbufFields)
    (accept : Nat → (n : Nat) → Fin (n + 1)) : State where
  mem := mem
  mbufs := mbufs
  rx_mbufs := fun _ => 0
  send_list := ⟨0, fun _ => 0⟩
  accept := accept
  txBursts := []
  freed := []
  calls := []

/-- The bytes that an mbuf describes. -/
def State.bytes (st : State) (m : Mbuf) : List (BitVec 8) :=
  (List.range (st.mbufs m).data_len.toNat).map fun i => st.mem (cell (st.mbufs m).data i)

/-! ## Section 2: Functions -/

def free_packet (m : Mbuf) (st : State) : State := { st with freed := st.freed ++ [m] }

/-- The `do`-`while` loop of `send_burst`: `n` mbufs from index `ret` on. -/
def freeTail : Nat → Nat → State → State
  | 0, _, st => st
  | n + 1, ret, st => freeTail n (ret + 1) (free_packet (st.send_list.list ret) st)

/-- The first `nb_pkts` mbufs of the list are presented; the NIC takes over a
    first part of them and says how much. -/
def rte_eth_tx_burst (nb_pkts : Nat) (st : State) : Nat × State :=
  let batch := (List.range nb_pkts).map st.send_list.list
  let k := (st.accept st.txBursts.length nb_pkts).val
  (k, { st with txBursts := st.txBursts ++ [⟨batch.map fun m => ⟨m, st.bytes m⟩, k⟩] })

/-- The whole array is sent, whatever `send_list.len` says. -/
def send_burst (st : State) : State :=
  -- `MAX_PKT_BURST`, not `send_list.len`; the caller only comes here with a full list
  let (ret, st) := rte_eth_tx_burst MAX_PKT_BURST st
  if ret < MAX_PKT_BURST then freeTail (MAX_PKT_BURST - ret) ret st else st

def send_packet (m : Mbuf) (st : State) : State :=
  let len := st.send_list.len
  let st := { st with
    send_list := { st.send_list with list := Function.update st.send_list.list len m } }
  let len := len + 1
  if len = MAX_PKT_BURST then
    let st := send_burst st
    { st with send_list := { st.send_list with len := 0 } }
  else
    { st with send_list := { st.send_list with len := len } }

/-- `none` is the null pointer. -/
def rte_pktmbuf_adj (m : Mbuf) (len : BitVec 16) (st : State) : Option Addr × State :=
  let f := st.mbufs m
  if len > f.data_len then
    (none, st)
  else
    let f : MbufFields := ⟨f.data + len.setWidth 64, f.data_len - len, f.pkt_len - len.setWidth 32⟩
    (some f.data, { st with mbufs := Function.update st.mbufs m f })

/-- On a little-endian host the four bytes change places. -/
def rte_be_to_cpu_32 (x : BitVec 32) : BitVec 32 :=
  x.extractLsb' 0 8 ++ x.extractLsb' 8 8 ++ x.extractLsb' 16 8 ++ x.extractLsb' 24 8

/-- Offset of `dst_addr` in `struct ipv4_hdr`. -/
def DST_ADDR : Nat := 16

/-- `iphdr->dst_addr`, in host order. -/
def destAddr (mem : Memory 64) (iphdr : Addr) : BitVec 32 :=
  rte_be_to_cpu_32 (BitVec.ofNat 32 (loadLE mem (cell iphdr DST_ADDR) 4))

/-- The loop over the blacklist, which does not stop at the first hit. -/
def dropLoop (dest_addr : BitVec 32) : List (BitVec 32) → Bool → Bool
  | [], drop => drop
  | entry :: blacklist, drop =>
    dropLoop dest_addr blacklist (if entry = dest_addr then true else drop)

/-- The body of the packet loop of `main_loop`. -/
def inspect (blacklist : List (BitVec 32)) (m : Mbuf) (st : State) : Option State :=
  match rte_pktmbuf_adj m 14 st with
  -- the source does not test `iphdr`: its read through the null pointer ends the run
  | (none, _) => none
  | (some iphdr, st) =>
    let dest_addr := destAddr st.mem iphdr
    if dropLoop dest_addr blacklist false = false then
      let st := send_packet m st
      some { st with calls := st.calls ++ [.send_packet m] }
    else
      let st := free_packet m st
      some { st with calls := st.calls ++ [.free_packet m] }

/-- `n` passes of the packet loop, from index `i` on. -/
def packetLoop (blacklist : List (BitVec 32)) : Nat → Nat → State → Option State
  | 0, _, st => some st
  | n + 1, i, st => (inspect blacklist (st.rx_mbufs i) st).bind (packetLoop blacklist n (i + 1))

/-- The NIC fills the first entries of the array. -/
def rte_eth_rx_burst (burst : RxBurst) (st : State) : State :=
  { st with
    mem := burst.mem
    mbufs := burst.frames.foldl
      (fun mbufs f => Function.update mbufs f.mbuf f.toMbufFields) st.mbufs
    rx_mbufs := fun i => (burst.frames[i]?.map RxFrame.mbuf).getD (st.rx_mbufs i) }

/-- One pass of the endless loop. The driver's count is never negative. -/
def iteration (blacklist : List (BitVec 32)) (burst : RxBurst) (st : State) : Option State :=
  packetLoop blacklist burst.frames.length 0 (rte_eth_rx_burst burst st)

def main_loop (blacklist : List (BitVec 32)) : List RxBurst → State → Option State
  | [], st => some st
  | burst :: bursts, st => (iteration blacklist burst st).bind (main_loop blacklist bursts)

/-! ## Section 3: What each function does -/

/-- The mbufs that wait in `send_list`. -/
def State.pending (st : State) : List Mbuf := (List.range st.send_list.len).map st.send_list.list

/-- The packet functions leave these variables alone. -/
structure Keeps (st st' : State) : Prop where
  mem : st'.mem = st.mem
  mbufs : st'.mbufs = st.mbufs
  rx_mbufs : st'.rx_mbufs = st.rx_mbufs
  accept : st'.accept = st.accept
  calls : st'.calls = st.calls

theorem Keeps.refl (st : State) : Keeps st st := ⟨rfl, rfl, rfl, rfl, rfl⟩

theorem Keeps.trans {st st' st'' : State} (h : Keeps st st') (h' : Keeps st' st'') :
    Keeps st st'' :=
  ⟨h'.mem.trans h.mem, h'.mbufs.trans h.mbufs, h'.rx_mbufs.trans h.rx_mbufs,
    h'.accept.trans h.accept, h'.calls.trans h.calls⟩

/-- The freeing loop frees a stretch of the array. -/
theorem freeTail_spec (n ret : Nat) (st : State) :
    (freeTail n ret st).freed = st.freed ++ (List.range' ret n).map st.send_list.list ∧
    (freeTail n ret st).txBursts = st.txBursts ∧
    (freeTail n ret st).send_list = st.send_list ∧ Keeps st (freeTail n ret st) := by
  induction n generalizing ret st with
  | zero => exact ⟨(List.append_nil _).symm, rfl, rfl, Keeps.refl st⟩
  | succ n ih =>
    obtain ⟨hfreed, htx, hlist, hkeeps⟩ := ih (ret + 1) (free_packet (st.send_list.list ret) st)
    have hfree : Keeps st (free_packet (st.send_list.list ret) st) := ⟨rfl, rfl, rfl, rfl, rfl⟩
    refine ⟨hfreed.trans ?_, htx, hlist, hfree.trans hkeeps⟩
    rw [List.range'_succ, List.map_cons]
    exact List.append_assoc _ _ _

/-- The batch that `send_burst` presents. -/
def State.batch (st : State) : List Mbuf := (List.range MAX_PKT_BURST).map st.send_list.list

/-- How much of it the NIC takes. -/
def State.taken (st : State) : Nat := st.accept st.txBursts.length MAX_PKT_BURST

/-- **Sending**: the whole array is presented, and what is not taken is freed. -/
theorem send_burst_spec (st : State) :
    (send_burst st).txBursts =
      st.txBursts ++ [⟨st.batch.map fun m => ⟨m, st.bytes m⟩, st.taken⟩] ∧
    (send_burst st).freed = st.freed ++ st.batch.drop st.taken ∧
    (send_burst st).send_list = st.send_list ∧ Keeps st (send_burst st) := by
  have htaken : st.taken ≤ MAX_PKT_BURST := Nat.le_of_lt_succ (Fin.isLt _)
  have hdrop : st.batch.drop st.taken =
      (List.range' st.taken (MAX_PKT_BURST - st.taken)).map st.send_list.list := by
    rw [State.batch, ← List.map_drop, List.range_eq_range', List.drop_range']
    simp
  have hoffer : Keeps st (rte_eth_tx_burst MAX_PKT_BURST st).2 := ⟨rfl, rfl, rfl, rfl, rfl⟩
  have hsend : send_burst st = if st.taken < MAX_PKT_BURST then
      freeTail (MAX_PKT_BURST - st.taken) st.taken (rte_eth_tx_burst MAX_PKT_BURST st).2 else
      (rte_eth_tx_burst MAX_PKT_BURST st).2 := rfl
  rw [hdrop, hsend]
  by_cases hlt : st.taken < MAX_PKT_BURST
  · obtain ⟨hfreed, htx, hlist, hloop⟩ := freeTail_spec (MAX_PKT_BURST - st.taken) st.taken
      (rte_eth_tx_burst MAX_PKT_BURST st).2
    rw [if_pos hlt]
    exact ⟨htx, hfreed, hlist, hoffer.trans hloop⟩
  · -- everything was taken
    have hall : MAX_PKT_BURST - st.taken = 0 := by omega
    rw [if_neg hlt, hall]
    exact ⟨rfl, (List.append_nil _).symm, rfl, hoffer⟩

theorem map_range_update (f : Nat → Mbuf) (n : Nat) (m : Mbuf) :
    (List.range (n + 1)).map (Function.update f n m) = (List.range n).map f ++ [m] := by
  have hold : ∀ i ∈ List.range n, Function.update f n m i = f i := by
    intro i hi
    exact Function.update_of_ne (Nat.ne_of_lt (List.mem_range.mp hi)) _ _
  rw [List.range_succ, List.map_append, List.map_congr_left hold]
  simp

/-- The list with one more mbuf in it, before the test for a full one. -/
def State.enlisted (st : State) (m : Mbuf) : State :=
  { st with send_list := { st.send_list with
      list := Function.update st.send_list.list st.send_list.len m } }

theorem send_packet_keeps (m : Mbuf) (st : State) : Keeps st (send_packet m st) := by
  have henlist : Keeps st (st.enlisted m) := ⟨rfl, rfl, rfl, rfl, rfl⟩
  unfold send_packet
  by_cases hfull : st.send_list.len + 1 = MAX_PKT_BURST
  · have hsend := henlist.trans (send_burst_spec (st.enlisted m)).2.2.2
    rw [if_pos hfull]
    exact ⟨hsend.mem, hsend.mbufs, hsend.rx_mbufs, hsend.accept, hsend.calls⟩
  · rw [if_neg hfull]
    exact ⟨rfl, rfl, rfl, rfl, rfl⟩

@[simp] theorem State.length_pending (st : State) : st.pending.length = st.send_list.len := by
  simp [State.pending]

/-- The two ways to add a packet: with it the list is full and presented, or
    there is still room. -/
theorem send_packet_cases (m : Mbuf) (st : State) (hroom : st.send_list.len < MAX_PKT_BURST) :
    (st.pending.length + 1 = MAX_PKT_BURST ∧ (send_packet m st).send_list.len = 0 ∧
      ∃ taken, (send_packet m st).txBursts = st.txBursts ++
          [⟨(st.pending ++ [m]).map fun m => ⟨m, st.bytes m⟩, taken⟩] ∧
        (send_packet m st).freed = st.freed ++ (st.pending ++ [m]).drop taken) ∨
    (st.pending.length + 1 < MAX_PKT_BURST ∧
      (send_packet m st).send_list.len = st.send_list.len + 1 ∧
      (send_packet m st).pending = st.pending ++ [m] ∧
      (send_packet m st).txBursts = st.txBursts ∧ (send_packet m st).freed = st.freed) := by
  unfold send_packet
  rw [State.length_pending]
  by_cases hfull : st.send_list.len + 1 = MAX_PKT_BURST
  · -- the list with the new mbuf is the whole array
    have hbatch : (st.enlisted m).batch = st.pending ++ [m] := by
      rw [State.batch, ← hfull]
      exact map_range_update st.send_list.list st.send_list.len m
    obtain ⟨htx, hfreed, -, -⟩ := send_burst_spec (st.enlisted m)
    rw [hbatch] at htx hfreed
    rw [if_pos hfull]
    exact Or.inl ⟨hfull, rfl, _, htx, hfreed⟩
  · rw [if_neg hfull]
    refine Or.inr ⟨by omega, rfl, ?_, rfl, rfl⟩
    exact map_range_update st.send_list.list st.send_list.len m

/-- **One packet to send**: it joins the list, and the 512th one sends it. -/
theorem send_packet_spec (m : Mbuf) (st : State) (hroom : st.send_list.len < MAX_PKT_BURST) :
    (send_packet m st).send_list.len < MAX_PKT_BURST ∧
    (((send_packet m st).pending = [] ∧
      ∃ d : Delivery TxFrame, d.batch.map TxFrame.mbuf = st.pending ++ [m] ∧
        (send_packet m st).txBursts = st.txBursts ++ [d] ∧
        (send_packet m st).freed = st.freed ++ (st.pending ++ [m]).drop d.taken) ∨
    ((send_packet m st).pending = st.pending ++ [m] ∧
      (send_packet m st).txBursts = st.txBursts ∧ (send_packet m st).freed = st.freed)) := by
  -- the bytes presented are left out here
  rcases send_packet_cases m st hroom with ⟨-, hlen, taken, htx, hfreed⟩ | ⟨hroom', hlen, hrest⟩
  · refine ⟨by rw [hlen]; decide, Or.inl ⟨?_, _, ?_, htx, hfreed⟩⟩
    · rw [State.pending, hlen]
      rfl
    · rw [List.map_map]
      exact List.map_id _
  · rw [State.length_pending] at hroom'
    exact ⟨by omega, Or.inr hrest⟩

/-- The loop over the blacklist looks the address up. -/
theorem dropLoop_eq (dest_addr : BitVec 32) (blacklist : List (BitVec 32)) (drop : Bool) :
    dropLoop dest_addr blacklist drop = (drop || decide (dest_addr ∈ blacklist)) := by
  induction blacklist generalizing drop with
  | nil => simp [dropLoop]
  | cons entry blacklist ih =>
    rw [dropLoop, ih]
    by_cases hhit : entry = dest_addr
    · simp [hhit]
    · have hne : dest_addr ≠ entry := fun h => hhit h.symm
      simp [hhit, hne]

/-- The verdict on a frame as it was delivered. -/
def RxFrame.passes (blacklist : List (BitVec 32)) (mem : Memory 64) (f : RxFrame) : Bool :=
  decide (destAddr mem (cell f.data 14) ∉ blacklist)

/-- The frame has room for an Ethernet header. -/
def RxFrame.HasHeader (f : RxFrame) : Prop := 14 ≤ f.data_len.toNat

instance (f : RxFrame) : Decidable f.HasHeader :=
  inferInstanceAs (Decidable (14 ≤ f.data_len.toNat))

/-- The state behind the header check: the Ethernet header is stripped. -/
def State.stripped (st : State) (m : Mbuf) : State :=
  { st with mbufs := Function.update st.mbufs m ⟨cell (st.mbufs m).data 14,
      (st.mbufs m).data_len - 14, (st.mbufs m).pkt_len - 14⟩ }

/-- **One packet**: a frame without a header ends the process; otherwise the
    verdict on the frame decides between the two calls. -/
theorem inspect_eq (blacklist : List (BitVec 32)) (f : RxFrame) (st : State)
    (hfields : st.mbufs f.mbuf = f.toMbufFields) :
    inspect blacklist f.mbuf st =
      if f.HasHeader then
        if f.passes blacklist st.mem then
          some { send_packet f.mbuf (st.stripped f.mbuf) with
            calls := st.calls ++ [.send_packet f.mbuf] }
        else
          some { free_packet f.mbuf (st.stripped f.mbuf) with
            calls := st.calls ++ [.free_packet f.mbuf] }
      else
        none := by
  unfold inspect rte_pktmbuf_adj
  by_cases hheader : f.HasHeader
  · have hadj : ¬ (14 : BitVec 16) > (st.mbufs f.mbuf).data_len := by
      rw [hfields]
      exact Nat.not_lt.mpr hheader
    -- the frame's own data pointer, moved past the Ethernet header
    have hpass : (dropLoop (destAddr st.mem (cell (st.mbufs f.mbuf).data 14)) blacklist false =
        false) ↔ f.passes blacklist st.mem = true := by
      rw [dropLoop_eq, hfields]
      simp [RxFrame.passes]
    rw [if_pos hheader]
    simp only [if_neg hadj]
    by_cases hsend : f.passes blacklist st.mem = true
    · have hcalls := (send_packet_keeps f.mbuf (st.stripped f.mbuf)).calls
      rw [if_pos hsend]
      refine (if_pos (hpass.mpr hsend)).trans ?_
      exact congrArg (fun calls => some { send_packet f.mbuf (st.stripped f.mbuf) with
        calls := calls ++ [Call.send_packet f.mbuf] }) hcalls
    · rw [if_neg hsend]
      exact if_neg fun h => hsend (hpass.mp h)
  · -- the cut is refused
    have hadj : (14 : BitVec 16) > (st.mbufs f.mbuf).data_len := by
      rw [hfields]
      exact Nat.not_le.mp hheader
    rw [if_neg hheader]
    simp only [if_pos hadj]

/-- What a pass that returns has done. -/
theorem inspect_cases {blacklist : List (BitVec 32)} {f : RxFrame} {st st' : State}
    (hfields : st.mbufs f.mbuf = f.toMbufFields) (h : inspect blacklist f.mbuf st = some st') :
    (f.passes blacklist st.mem = true ∧ st' = { send_packet f.mbuf (st.stripped f.mbuf) with
      calls := st.calls ++ [.send_packet f.mbuf] }) ∨
    (¬ f.passes blacklist st.mem = true ∧ st' = { free_packet f.mbuf (st.stripped f.mbuf) with
      calls := st.calls ++ [.free_packet f.mbuf] }) := by
  rw [inspect_eq blacklist f st hfields] at h
  by_cases hheader : f.HasHeader
  · rw [if_pos hheader] at h
    by_cases hpass : f.passes blacklist st.mem = true
    · rw [if_pos hpass, Option.some.injEq] at h
      exact Or.inl ⟨hpass, h.symm⟩
    · rw [if_neg hpass, Option.some.injEq] at h
      exact Or.inr ⟨hpass, h.symm⟩
  · rw [if_neg hheader] at h
    exact absurd h nofun

/-- A pass returns for a frame with an Ethernet header. -/
theorem inspect_returns (blacklist : List (BitVec 32)) {f : RxFrame} {st : State}
    (hfields : st.mbufs f.mbuf = f.toMbufFields) (hheader : f.HasHeader) :
    ∃ st', inspect blacklist f.mbuf st = some st' := by
  rw [inspect_eq blacklist f st hfields, if_pos hheader]
  by_cases hpass : f.passes blacklist st.mem = true
  · exact ⟨_, if_pos hpass⟩
  · exact ⟨_, if_neg hpass⟩

end PacketPro.CFirewall
