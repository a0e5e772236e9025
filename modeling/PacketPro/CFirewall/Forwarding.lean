import PacketPro.CFirewall.Conservation

/-! # The Bytes that the C Firewall Forwards

    `main_loop` gets at the IPv4 header with `rte_pktmbuf_adj`, which moves the
    data pointer of the mbuf itself, and nothing moves it back. An mbuf may wait
    in `send_list` over many polls before it is presented to the NIC. This
    module follows what it describes on the way:

    * The send list is a batching queue of the mbufs and the bytes they
      describe (`State.queue`, `send_packet_queue`).
    * `Cuts` is the invariant between two packets: the queue has been given
      every frame that passed, each without its first 14 bytes.
    * The NIC leaves alone the mbufs that the program still holds (`Apart`).
-/

open ByteMem Batching

namespace PacketPro.CFirewall

/-! ## Section 1: Frames as delivered and as presented -/

/-- A frame as `rte_eth_rx_burst` delivers it. -/
def RxFrame.delivered (mem : Memory 64) (f : RxFrame) : TxFrame :=
  ⟨f.mbuf, (List.range f.data_len.toNat).map fun i => mem (cell f.data i)⟩

/-- What an mbuf stands for in the current state. -/
def State.described (st : State) (m : Mbuf) : TxFrame := ⟨m, st.bytes m⟩

/-- A frame without its first 14 bytes, the size of `struct ether_hdr`. -/
def TxFrame.cut (t : TxFrame) : TxFrame := ⟨t.mbuf, t.bytes.drop 14⟩

theorem TxFrame.cut_ne {t : TxFrame} (h : t.bytes ≠ []) : t.cut ≠ t := by
  intro heq
  have hlength := congrArg (fun t => t.bytes.length) heq
  have hpos := List.length_pos_iff.mpr h
  simp only [TxFrame.cut, List.length_drop] at hlength
  omega

@[simp] theorem RxFrame.length_delivered (mem : Memory 64) (f : RxFrame) :
    (f.delivered mem).bytes.length = f.data_len.toNat := by
  simp [RxFrame.delivered]

theorem drop_map_range (g : Nat → BitVec 8) (n k : Nat) :
    ((List.range n).map g).drop k = (List.range (n - k)).map fun i => g (k + i) := by
  rw [← List.map_drop, List.range_eq_range', List.drop_range', List.range'_eq_map_range,
    List.map_map]
  refine List.map_congr_left fun i _ => ?_
  simp

/-- Behind the header check the mbuf describes the frame from byte 14 on. -/
theorem stripped_described {f : RxFrame} {st : State} (hfields : st.mbufs f.mbuf = f.toMbufFields)
    (hheader : f.HasHeader) :
    (st.stripped f.mbuf).described f.mbuf = (f.delivered st.mem).cut := by
  have hlen : (f.data_len - 14).toNat = f.data_len.toNat - 14 := by
    have hsub := BitVec.toNat_sub_of_le (show (14 : BitVec 16) ≤ f.data_len from hheader)
    exact hsub
  have hself : (st.stripped f.mbuf).mbufs f.mbuf =
      ⟨cell f.data 14, f.data_len - 14, f.pkt_len - 14⟩ := by
    rw [← hfields]
    exact Function.update_self _ _ _
  -- the moved data pointer reaches the same bytes with 14 less
  have hmove : ∀ i, cell (cell f.data 14) i = cell f.data (14 + i) :=
    fun i => add_ofNat_add_ofNat f.data 14 i
  have hbytes : (st.stripped f.mbuf).bytes f.mbuf = (f.delivered st.mem).bytes.drop 14 := by
    rw [State.bytes, hself, hlen, RxFrame.delivered, drop_map_range]
    exact List.map_congr_left fun i _ => congrArg st.mem (hmove i)
  rw [State.described, hbytes]
  rfl

/-- The header check touches no other mbuf. -/
theorem stripped_described_of_ne {st : State} {m m' : Mbuf} (h : m' ≠ m) :
    (st.stripped m).described m' = st.described m' := by
  have hother : (st.stripped m).mbufs m' = st.mbufs m' := Function.update_of_ne h _ _
  rw [State.described, State.described, State.bytes, State.bytes, hother]
  rfl

/-! ## Section 2: The send list as a queue -/

/-- The batches presented, and what the waiting mbufs describe. -/
def State.queue (st : State) : Queue TxFrame :=
  ⟨st.txBursts.map Delivery.batch, st.pending.map st.described⟩

theorem flushed_queue (st : State) : st.queue.flushed.flatten = presented st.txBursts := rfl

/-- **Refinement**: `send_packet` pushes what the mbuf describes onto a queue
    that flushes at its 512th element. -/
theorem send_packet_queue (m : Mbuf) (st : State) (hroom : st.send_list.len < MAX_PKT_BURST) :
    (send_packet m st).queue = st.queue.pushFull MAX_PKT_BURST (st.described m) := by
  have hkeeps := send_packet_keeps m st
  -- sending changes neither the memory nor any mbuf
  have hsame : (send_packet m st).described = st.described := by
    funext m'
    rw [State.described, State.described, State.bytes, State.bytes, hkeeps.mem, hkeeps.mbufs]
  have hheld : st.queue.held.length = st.pending.length := List.length_map _
  rw [Queue.pushFull, Queue.push, hheld, State.queue, hsame]
  rcases send_packet_cases m st hroom with
    ⟨hfull, hlen, taken, htx, -⟩ | ⟨hless, -, hpending, htx, -⟩
  · have hnone : (send_packet m st).pending = [] := by
      rw [State.pending, hlen]
      rfl
    have hbatch : (st.pending ++ [m]).map (fun m => TxFrame.mk m (st.bytes m)) =
        st.queue.held ++ [st.described m] := List.map_append
    rw [htx, hnone, List.map_append, hbatch, decide_eq_true hfull]
    rfl
  · rw [htx, hpending, List.map_append, decide_eq_false (Nat.ne_of_lt hless)]
    rfl

/-- Between two packets: `frames` are the frames that passed so far, as they
    were delivered. -/
structure Cuts (frames : List TxFrame) (st : State) : Prop where
  shape : st.queue.Exact MAX_PKT_BURST
  given : st.queue.given = frames.map TxFrame.cut

section cuts
variable {frames : List TxFrame} {st st' : State}

theorem Cuts.room (h : Cuts frames st) : st.send_list.len < MAX_PKT_BURST := by
  have hheld := h.shape.2
  rw [State.queue, List.length_map, State.length_pending] at hheld
  exact hheld

/-- **Frame lemma**: only the waiting mbufs and the batches presented matter. -/
theorem Cuts.frame (h : Cuts frames st) (htx : st'.txBursts = st.txBursts)
    (hpending : st'.pending = st.pending)
    (hsame : ∀ m ∈ st.pending, st'.described m = st.described m) : Cuts frames st' := by
  have hqueue : st'.queue = st.queue := by
    rw [State.queue, State.queue, htx, hpending, List.map_congr_left hsame]
  exact ⟨hqueue ▸ h.shape, hqueue ▸ h.given⟩

/-- **Step lemma**: a cut frame joins the queue. -/
theorem Cuts.send_packet (h : Cuts frames st) {m : Mbuf} {t : TxFrame}
    (ht : st.described m = t.cut) : Cuts (frames ++ [t]) (send_packet m st) := by
  have hqueue := send_packet_queue m st h.room
  refine ⟨hqueue ▸ h.shape.pushFull _, ?_⟩
  rw [hqueue, given_pushFull, h.given, ht, List.map_append]
  rfl

/-- The batches presented are the whole batches among the frames that passed. -/
theorem Cuts.presented_eq (h : Cuts frames st) : presented st.txBursts =
    (frames.take (MAX_PKT_BURST * (frames.length / MAX_PKT_BURST))).map TxFrame.cut := by
  have hflat := h.shape.flatten_flushed
  rw [flushed_queue, h.given, List.length_map, ← List.map_take] at hflat
  exact hflat

end cuts

/-! ## Section 3: The packet loop -/

/-- None of the frames still to be inspected waits in the send list. -/
def Unsent (frames : List RxFrame) (st : State) : Prop := ∀ f ∈ frames, f.mbuf ∉ st.pending

section loop
variable {blacklist : List (BitVec 32)} {mem : Memory 64} {st st' : State} {i : Nat}
  {sent : List TxFrame}

/-- A pass that returns had a frame with an Ethernet header. -/
theorem hasHeader_of_inspect {f : RxFrame} (hfields : st.mbufs f.mbuf = f.toMbufFields)
    (hst' : inspect blacklist f.mbuf st = some st') : f.HasHeader := by
  by_contra hshort
  rw [inspect_eq blacklist f st hfields, if_neg hshort] at hst'
  exact absurd hst' nofun

theorem mem_pending_send_packet {m m' : Mbuf} (hroom : st.send_list.len < MAX_PKT_BURST)
    (h : m' ∈ (send_packet m st).pending) : m' ∈ st.pending ∨ m' = m := by
  obtain ⟨-, ⟨hnone, -⟩ | ⟨hpending, -, -⟩⟩ := send_packet_spec m st hroom
  · rw [hnone] at h
    exact absurd h List.not_mem_nil
  · rw [hpending, List.mem_append, List.mem_singleton] at h
    exact h

/-- A pass leaves the later frames out of the send list. -/
theorem Unsent.inspect {f : RxFrame} {frames : List RxFrame} (h : Unsent (f :: frames) st)
    (hroom : st.send_list.len < MAX_PKT_BURST) (hload : Loaded (f :: frames) i mem st)
    (hst' : inspect blacklist f.mbuf st = some st') : Unsent frames st' := by
  intro g hg hin
  have hold : g.mbuf ∉ st.pending := h g (List.mem_cons_of_mem _ hg)
  rcases inspect_cases (hload.fields f (List.mem_cons_self ..)) hst' with ⟨-, rfl⟩ | ⟨-, rfl⟩
  · have hroom' : (st.stripped f.mbuf).send_list.len < MAX_PKT_BURST := hroom
    rcases mem_pending_send_packet hroom' hin with hbefore | heq
    · exact hold hbefore
    · exact (List.nodup_cons.mp hload.distinct).1 (heq ▸ List.mem_map_of_mem hg)
  · exact hold hin

/-- **Step lemma**: a frame that passes is sent without its Ethernet header. -/
theorem Cuts.inspect {f : RxFrame} {frames : List RxFrame} (h : Cuts sent st)
    (hunsent : Unsent (f :: frames) st) (hload : Loaded (f :: frames) i mem st)
    (hst' : inspect blacklist f.mbuf st = some st') :
    Cuts (sent ++ ([f].filter (RxFrame.passes blacklist mem)).map (RxFrame.delivered mem)) st' := by
  have hfields := hload.fields f (List.mem_cons_self ..)
  -- the mbuf whose data pointer moves does not wait in the list
  have hstripped : Cuts sent (st.stripped f.mbuf) := by
    refine h.frame rfl rfl fun m hm => stripped_described_of_ne ?_
    rintro rfl
    exact hunsent f (List.mem_cons_self ..) hm
  rcases inspect_cases hfields hst' with ⟨hpass, rfl⟩ | ⟨hpass, rfl⟩
  · have hcut := stripped_described hfields (hasHeader_of_inspect hfields hst')
    rw [hload.mem] at hpass hcut
    have hsent := hstripped.send_packet hcut
    rw [List.filter_cons_of_pos hpass]
    exact ⟨hsent.shape, hsent.given⟩
  · rw [hload.mem] at hpass
    rw [List.filter_cons_of_neg hpass]
    exact ⟨hstripped.shape, hstripped.given.trans (by simp)⟩

/-- **Run lemma**: `k` passes of the packet loop. -/
theorem Cuts.packetLoop {frames : List RxFrame} {k : Nat} (h : Cuts sent st)
    (hunsent : Unsent frames st) (hload : Loaded frames i mem st) (hk : k ≤ frames.length)
    (hst' : packetLoop blacklist k i st = some st') :
    Cuts (sent ++ ((frames.take k).filter (RxFrame.passes blacklist mem)).map
      (RxFrame.delivered mem)) st' := by
  have hend := packetLoop_rule (fun behind ahead st =>
    Cuts (sent ++ (behind.filter (RxFrame.passes blacklist mem)).map (RxFrame.delivered mem)) st ∧
      Unsent ahead st) ?_ [] ⟨?_, hunsent⟩ hload hk hst'
  · exact hend.1
  · rintro behind f ahead i st st' ⟨hcuts, hahead⟩ hload hpass
    have hnext := hcuts.inspect hahead hload hpass
    rw [List.append_assoc, ← List.map_append, ← List.filter_append] at hnext
    exact ⟨hnext, hahead.inspect hcuts.room hload hpass⟩
  · simpa using h

end loop

/-! ## Section 4: Whole runs -/

/-- The NIC leaves alone what the program still holds: it hands out no mbuf
    that waits in the send list, and writes to none of the bytes that such an
    mbuf describes. -/
structure Apart (burst : RxBurst) (st : State) : Prop where
  mbufs : ∀ m ∈ st.pending, m ∉ burst.frames.map RxFrame.mbuf
  bytes : ∀ m ∈ st.pending, ∀ i < (st.mbufs m).data_len.toNat,
    burst.mem (cell (st.mbufs m).data i) = st.mem (cell (st.mbufs m).data i)

/-- At every poll of a run. -/
def ApartAlong (blacklist : List (BitVec 32)) : List RxBurst → State → Prop
  | [], _ => True
  | burst :: bursts, st => Apart burst st ∧
    ∀ st', iteration blacklist burst st = some st' → ApartAlong blacklist bursts st'

/-- A poll changes nothing that waits. -/
theorem Cuts.rte_eth_rx_burst {sent : List TxFrame} {st : State} {burst : RxBurst}
    (h : Cuts sent st) (hapart : Apart burst st) : Cuts sent (rte_eth_rx_burst burst st) := by
  refine h.frame rfl rfl fun m hm => ?_
  have hfields : (CFirewall.rte_eth_rx_burst burst st).mbufs m = st.mbufs m :=
    foldl_update_of_not_mem burst.frames st.mbufs (hapart.mbufs m hm)
  have hbytes : (CFirewall.rte_eth_rx_burst burst st).bytes m = st.bytes m := by
    rw [State.bytes, State.bytes, hfields]
    exact List.map_congr_left fun i hi => hapart.bytes m hm i (List.mem_range.mp hi)
  rw [State.described, State.described, hbytes]

theorem Apart.unsent {burst : RxBurst} {st : State} (h : Apart burst st) :
    Unsent burst.frames (CFirewall.rte_eth_rx_burst burst st) :=
  fun f hf hin => h.mbufs f.mbuf hin (List.mem_map_of_mem hf)

/-- The frames of `k` packets of a burst that pass, as they were delivered. -/
def RxBurst.passing (blacklist : List (BitVec 32)) (burst : RxBurst) (k : Nat) : List TxFrame :=
  ((burst.frames.take k).filter (RxFrame.passes blacklist burst.mem)).map
    (RxFrame.delivered burst.mem)

/-- The frames that `main_loopUpTo` does not drop, as they were delivered. -/
def passingUpTo (blacklist : List (BitVec 32)) (bursts : List RxBurst) (next : RxBurst)
    (k : Nat) : List TxFrame :=
  (bursts.flatMap fun burst => burst.passing blacklist burst.frames.length) ++
    next.passing blacklist k

section runs
variable {blacklist : List (BitVec 32)} {sent : List TxFrame} {st st' : State}

/-- A poll and `k` passes of the packet loop behind it. -/
theorem Cuts.burst {burst : RxBurst} {k : Nat} (h : Cuts sent st) (hapart : Apart burst st)
    (hk : k ≤ burst.frames.length)
    (hst' : CFirewall.packetLoop blacklist k 0 (CFirewall.rte_eth_rx_burst burst st) = some st') :
    Cuts (sent ++ burst.passing blacklist k) st' :=
  (h.rte_eth_rx_burst hapart).packetLoop hapart.unsent (rte_eth_rx_burst_loaded burst st) hk hst'

/-- **Run lemma**: every number of iterations, then a part of one more. -/
theorem Cuts.main_loopUpTo {bursts : List RxBurst} {next : RxBurst} {k : Nat}
    (h : Cuts sent st) (hapart : ApartAlong blacklist (bursts ++ [next]) st)
    (hk : k ≤ next.frames.length) (hst' : main_loopUpTo blacklist bursts next k st = some st') :
    Cuts (sent ++ passingUpTo blacklist bursts next k) st' := by
  induction bursts generalizing st sent with
  | nil => exact h.burst hapart.1 hk hst'
  | cons burst bursts ih =>
    -- the first iteration leads to the state from which the others are apart
    rw [CFirewall.main_loopUpTo, main_loop_cons, Option.bind_assoc] at hst'
    obtain ⟨st₁, hst₁, hrest⟩ := Option.bind_eq_some_iff.mp hst'
    have hiter := h.burst hapart.1 (Nat.le_refl _) hst₁
    have hend := ih hiter (hapart.2 st₁ hst₁) hrest
    rw [passingUpTo, List.flatMap_cons, List.append_assoc, ← List.append_assoc]
    exact hend

/-- No function behind a poll writes to native memory. -/
theorem packetLoop_mem {n i : Nat} (hst' : packetLoop blacklist n i st = some st') :
    st'.mem = st.mem := by
  induction n generalizing i st with
  | zero =>
    rw [packetLoop, Option.some.injEq] at hst'
    rw [← hst']
  | succ n ih =>
    rw [packetLoop] at hst'
    obtain ⟨st₁, hst₁, hrest⟩ := Option.bind_eq_some_iff.mp hst'
    rw [ih hrest]
    -- the frame does not matter here: any mbuf describes one
    have hpass := inspect_cases (f := ⟨st.mbufs (st.rx_mbufs i), st.rx_mbufs i⟩) rfl hst₁
    rcases hpass with ⟨-, rfl⟩ | ⟨-, rfl⟩
    · exact (send_packet_keeps _ _).mem
    · rfl

end runs

theorem boot_cuts (mem : Memory 64) (mbufs : Mbuf → MbufFields)
    (accept : Nat → (n : Nat) → Fin (n + 1)) : Cuts [] (State.boot mem mbufs accept) :=
  ⟨exact_empty (show 0 < MAX_PKT_BURST by decide), rfl⟩

/-! ## Section 5: No frame is forwarded unchanged -/

/-- Every frame of at least 34 bytes is presented as it was delivered. -/
def ForwardsUnchanged (delivered shown : List TxFrame) : Prop :=
  ∀ (i : Nat) (f t : TxFrame), delivered[i]? = some f →
    shown[i]? = some t → 34 ≤ f.bytes.length → t = f

theorem getElem?_of_take {frames : List TxFrame} {n i : Nat} {f : TxFrame}
    (h : (frames.take n)[i]? = some f) : frames[i]? = some f := by
  rw [List.getElem?_take] at h
  split at h
  · exact h
  · exact absurd h nofun

/-- Cut frames are unchanged only where there is no frame of that size. -/
theorem forwardsUnchanged_cut_iff (frames : List TxFrame) (n : Nat) :
    ForwardsUnchanged frames ((frames.take n).map TxFrame.cut) ↔
      ∀ f ∈ frames.take n, f.bytes.length < 34 := by
  constructor
  · -- a frame of that size would have to be equal to what is left of it
    intro hsame f hf
    by_contra hlong
    obtain ⟨i, hi⟩ := List.mem_iff_getElem?.mp hf
    have hshown : ((frames.take n).map TxFrame.cut)[i]? = some f.cut := by
      rw [List.getElem?_map, hi]
      rfl
    have hdelivered : frames[i]? = some f := getElem?_of_take hi
    have hpos : f.bytes ≠ [] := by
      rintro hnil
      rw [hnil] at hlong
      exact hlong (by decide)
    exact TxFrame.cut_ne hpos (hsame i f f.cut hdelivered hshown (Nat.not_lt.mp hlong))
  · -- no frame that is presented has that size
    intro hshort i f t hf ht hlong
    rw [List.getElem?_map] at ht
    obtain ⟨g, hg, -⟩ := Option.map_eq_some_iff.mp ht
    have hfg : frames[i]? = some g := getElem?_of_take hg
    obtain rfl : f = g := Option.some.inj (hf.symm.trans hfg)
    exact absurd (hshort f (List.mem_iff_getElem?.mpr ⟨i, hg⟩)) (Nat.not_lt.mpr hlong)

/-- **Main**: whatever the blacklist, the fill level and the answers of the NIC,
    the frames presented are the whole batches of 512 among those that passed,
    each without its Ethernet header. So they are as delivered only in a run
    that presents no frame of that size. -/
theorem main_loop_unchanged_iff (blacklist : List (BitVec 32)) (mem : Memory 64)
    (mbufs : Mbuf → MbufFields) (accept : Nat → (n : Nat) → Fin (n + 1)) (bursts : List RxBurst)
    (next : RxBurst) (k : Nat) (hk : k ≤ next.frames.length)
    (hapart : ApartAlong blacklist (bursts ++ [next]) (State.boot mem mbufs accept)) :
    ((∀ f ∈ bursts.flatMap RxBurst.frames ++ next.frames.take k, f.HasHeader) →
      ∃ st, main_loopUpTo blacklist bursts next k (State.boot mem mbufs accept) = some st) ∧
    ∀ st, main_loopUpTo blacklist bursts next k (State.boot mem mbufs accept) = some st →
      presented st.txBursts = ((passingUpTo blacklist bursts next k).take
        (512 * ((passingUpTo blacklist bursts next k).length / 512))).map TxFrame.cut ∧
      (ForwardsUnchanged (passingUpTo blacklist bursts next k) (presented st.txBursts) ↔
        ∀ f ∈ (passingUpTo blacklist bursts next k).take
          (512 * ((passingUpTo blacklist bursts next k).length / 512)), f.bytes.length < 34) := by
  refine ⟨main_loopUpTo_returns blacklist bursts next k hk _, ?_⟩
  intro st hst
  have hcuts := (boot_cuts mem mbufs accept).main_loopUpTo hapart hk hst
  have hshown := hcuts.presented_eq
  refine ⟨hshown, ?_⟩
  rw [hshown]
  exact forwardsUnchanged_cut_iff _ _

section sample

theorem burstOf_mbuf_large {n : Nat} {h : n ≤ MAX_PKT_BURST} {m : Mbuf}
    (hm : m ∈ (burstOf n h).frames.map RxFrame.mbuf) : 0x1000 ≤ m.toNat := by
  obtain ⟨f, hf, rfl⟩ := List.mem_map.mp hm
  obtain ⟨i, hi, rfl⟩ := List.mem_map.mp hf
  rw [frameAt_mbuf_toNat (Nat.lt_of_lt_of_le (List.mem_range.mp hi) h)]
  exact Nat.le_add_right _ _

/-- Over zeroed memory every frame passes. -/
theorem passing_zero (burst : RxBurst) (hmem : burst.mem = fun _ => 0) (k : Nat) :
    burst.passing [1] k = (burst.frames.take k).map (RxFrame.delivered burst.mem) := by
  rw [RxBurst.passing, hmem, filter_passes_zero]

/-- An iteration leaves native memory as the poll left it. -/
theorem iteration_mem {blacklist : List (BitVec 32)} {burst : RxBurst} {st st' : State}
    (hst' : iteration blacklist burst st = some st') : st'.mem = burst.mem :=
  packetLoop_mem hst'

/-- The burst of two is followed by the full one. -/
theorem sample_apartAlong :
    ApartAlong [1] ([sampleBurst] ++ [fullBurst])
      (State.boot (fun _ => 0) (fun _ => ⟨0, 0, 0⟩) (fun _ _ => 0)) := by
  refine ⟨⟨nofun, nofun⟩, fun st hst => ⟨⟨?_, ?_⟩, fun _ _ => trivial⟩⟩
  · -- what waits was received before
    intro m hm hnew
    have hacc := (boot_accounts (fun _ => 0) (fun _ => ⟨0, 0, 0⟩) (fun _ _ => 0)).main_loop
      (show main_loop [1] [sampleBurst] _ = some st by rw [main_loop_cons, hst]; rfl)
    have hold : m ∈ [(0x100 : Mbuf), 0x200] :=
      hacc.account.mem_iff.mpr (List.mem_append_right _ hm)
    have hlarge := burstOf_mbuf_large hnew
    rcases List.mem_cons.mp hold with rfl | hold
    · exact absurd hlarge (by decide)
    · rw [List.mem_singleton.mp hold] at hlarge
      exact absurd hlarge (by decide)
  · -- both bursts leave memory zeroed
    intro m _ i _
    rw [iteration_mem hst]
    rfl

/-- All the frames of the two bursts pass. -/
theorem sample_passing_length : (passingUpTo [1] [sampleBurst] fullBurst 510).length = 512 := by
  have htwo : (sampleBurst.passing [1] sampleBurst.frames.length).length = 2 := by
    rw [passing_zero sampleBurst rfl, List.take_length, List.length_map]
    rfl
  have hrest : (fullBurst.passing [1] 510).length = 510 := by
    rw [passing_zero fullBurst rfl, List.length_map, List.length_take,
      fullBurst_length]
    rfl
  rw [passingUpTo, List.flatMap_singleton, List.length_append, htwo, hrest]

/-- The first of them was delivered with 60 bytes. -/
theorem sample_passing_head : ∃ f : TxFrame,
    (passingUpTo [1] [sampleBurst] fullBurst 510)[0]? = some f ∧ f.bytes.length = 60 := by
  rw [passingUpTo, List.flatMap_singleton, passing_zero sampleBurst rfl]
  exact ⟨_, rfl, RxFrame.length_delivered _ _⟩

end sample

/-- Two frames wait when a full burst arrives; with 510 more the list is sent,
    and all 512 frames have lost their Ethernet header. -/
theorem main_loop_unchanged_iff_full :
    ∃ st, main_loopUpTo [1] [sampleBurst] fullBurst 510
        (State.boot (fun _ => 0) (fun _ => ⟨0, 0, 0⟩) (fun _ _ => 0)) = some st ∧
      presented st.txBursts = (passingUpTo [1] [sampleBurst] fullBurst 510).map TxFrame.cut ∧
      ¬ ForwardsUnchanged (passingUpTo [1] [sampleBurst] fullBurst 510)
        (presented st.txBursts) := by
  obtain ⟨hreturns, hall⟩ := main_loop_unchanged_iff [1] (fun _ => 0) (fun _ => ⟨0, 0, 0⟩)
    (fun _ _ => 0) [sampleBurst] fullBurst 510
    (by rw [fullBurst_length]; decide) sample_apartAlong
  obtain ⟨st, hst⟩ := hreturns sample_hasHeader
  obtain ⟨hshown, hiff⟩ := hall st hst
  -- the 512 frames are one whole batch
  have htake : (passingUpTo [1] [sampleBurst] fullBurst 510).take
      (512 * ((passingUpTo [1] [sampleBurst] fullBurst 510).length / 512)) =
      passingUpTo [1] [sampleBurst] fullBurst 510 := by
    apply List.take_of_length_le
    rw [sample_passing_length]
  rw [htake] at hshown hiff
  refine ⟨st, hst, hshown, fun hsame => ?_⟩
  obtain ⟨f, hf, hlength⟩ := sample_passing_head
  have hshort := hiff.mp hsame f (List.mem_iff_getElem?.mpr ⟨0, hf⟩)
  rw [hlength] at hshort
  exact absurd hshort (by decide)

/-- In that run a frame of 60 bytes is presented with 46 bytes. -/
theorem presented_frame_lacks_header :
    ApartAlong [1] ([sampleBurst] ++ [fullBurst])
      (State.boot (fun _ => 0) (fun _ => ⟨0, 0, 0⟩) (fun _ _ => 0)) ∧
    ∃ st, main_loopUpTo [1] [sampleBurst] fullBurst 510
        (State.boot (fun _ => 0) (fun _ => ⟨0, 0, 0⟩) (fun _ _ => 0)) = some st ∧
      (∃ f t : TxFrame, (passingUpTo [1] [sampleBurst] fullBurst 510)[0]? = some f ∧
        (presented st.txBursts)[0]? = some t ∧ t.mbuf = f.mbuf ∧
        f.bytes.length = 60 ∧ t.bytes.length = 46) ∧
      ¬ ForwardsUnchanged (passingUpTo [1] [sampleBurst] fullBurst 510)
        (presented st.txBursts) := by
  have hk : 510 ≤ fullBurst.frames.length := by rw [fullBurst_length]; decide
  refine ⟨sample_apartAlong, ?_⟩
  obtain ⟨st, hst⟩ := main_loopUpTo_returns [1] [sampleBurst] fullBurst 510 hk
    (State.boot (fun _ => 0) (fun _ => ⟨0, 0, 0⟩) (fun _ _ => 0)) sample_hasHeader
  obtain ⟨f, hf, hlength⟩ := sample_passing_head
  have hcut : f.cut.bytes.length = 46 := by
    rw [TxFrame.cut, List.length_drop, hlength]
  have hshown : (presented st.txBursts)[0]? = some f.cut := by
    have hcuts := (boot_cuts _ _ _).main_loopUpTo sample_apartAlong hk hst
    rw [List.nil_append] at hcuts
    rw [hcuts.presented_eq, sample_passing_length, List.getElem?_map, List.getElem?_take_of_lt
      (by decide), hf]
    rfl
  refine ⟨st, hst, ⟨f, f.cut, hf, hshown, rfl, hlength, hcut⟩, fun hsame => ?_⟩
  have heq := hsame 0 f f.cut hf hshown (by omega)
  rw [heq] at hcut
  omega

end PacketPro.CFirewall
