import Mathlib.Data.List.Nodup
import PacketPro.CFirewall.Main

/-! # Conservation in the C Firewall

    On one lcore no mbuf is lost or duplicated: each one that was received and
    handled has been taken over by the NIC, or freed, or waits in `send_list`.

    * `Accounts` is the invariant between two packets, for every fill level of
      the list and every history of partial transmissions.
    * `Loaded` says what the packet loop still has in front of it.
    * `main_loop_conserves` puts them together for whole runs.
-/

open ByteMem Batching

namespace PacketPro.CFirewall

/-! ## Section 1: The account of one lcore -/

/-- Between two packets: `handled` are the mbufs inspected so far, `forwarded`
    those of them that passed. -/
structure Accounts (handled forwarded : List Mbuf) (st : State) : Prop where
  room : st.send_list.len < MAX_PKT_BURST
  order : (presented st.txBursts).map TxFrame.mbuf ++ st.pending = forwarded
  account : handled.Perm ((owned st.txBursts).map TxFrame.mbuf ++ st.freed ++ st.pending)

section account
variable {handled forwarded : List Mbuf} {st : State}

/-- Freeing a packet moves it to the freed ones. -/
theorem Accounts.free_packet (h : Accounts handled forwarded st) (m : Mbuf) :
    Accounts (handled ++ [m]) forwarded (free_packet m st) := by
  refine ⟨h.room, h.order, ?_⟩
  show (handled ++ [m]).Perm
    ((owned st.txBursts).map TxFrame.mbuf ++ (st.freed ++ [m]) ++ st.pending)
  rw [List.perm_iff_count]
  intro a
  have hcount := h.account.count_eq a
  simp only [List.count_append] at hcount ⊢
  omega

/-- **Step lemma**: a packet to send waits, or completes a batch of which the
    NIC takes a part while the rest is freed. -/
theorem Accounts.send_packet (h : Accounts handled forwarded st) (m : Mbuf) :
    Accounts (handled ++ [m]) (forwarded ++ [m]) (send_packet m st) := by
  obtain ⟨hroom, hcase⟩ := send_packet_spec m st h.room
  rcases hcase with ⟨hpending, d, hbatch, htx, hfreed⟩ | ⟨hpending, htx, hfreed⟩
  · refine ⟨hroom, ?_, ?_⟩
    · rw [hpending, htx, presented_append, List.map_append, ← h.order, List.append_nil]
      show _ ++ ((presented [d]).map TxFrame.mbuf) = _
      rw [show presented [d] = d.batch from List.append_nil _, hbatch]
      exact (List.append_assoc _ _ _).symm
    · -- the batch splits into the part taken and the part freed
      have hsplit := List.take_append_drop d.taken (st.pending ++ [m])
      have htaken : (owned [d]).map TxFrame.mbuf = (st.pending ++ [m]).take d.taken := by
        rw [show owned [d] = d.batch.take d.taken from List.append_nil _, List.map_take, hbatch]
      rw [hpending, htx, hfreed, owned_append, List.map_append, htaken, List.append_nil,
        List.perm_iff_count]
      intro a
      have hcount := h.account.count_eq a
      have hparts := congrArg (List.count a) hsplit
      simp only [List.count_append] at hcount hparts ⊢
      omega
  · refine ⟨hroom, ?_, ?_⟩
    · rw [hpending, htx, ← h.order]
      exact (List.append_assoc _ _ _).symm
    · rw [hpending, htx, hfreed, ← List.append_assoc]
      exact h.account.append_right [m]

end account

/-! ## Section 2: The packet loop -/

/-- From slot `i` on the array holds the mbufs of `frames`, untouched so far. -/
structure Loaded (frames : List RxFrame) (i : Nat) (mem : Memory 64) (st : State) : Prop where
  mem : st.mem = mem
  slots : ∀ j f, frames[j]? = some f → st.rx_mbufs (i + j) = f.mbuf
  fields : ∀ f ∈ frames, st.mbufs f.mbuf = f.toMbufFields
  distinct : (frames.map RxFrame.mbuf).Nodup

section loop
variable {blacklist : List (BitVec 32)} {mem : Memory 64} {st : State} {i : Nat}
  {handled forwarded : List Mbuf}

/-- Handling the first frame leaves the others as they are. -/
theorem Loaded.tail {f : RxFrame} {frames : List RxFrame} (h : Loaded (f :: frames) i mem st)
    {st' : State} (hmem : st'.mem = st.mem) (hslots : st'.rx_mbufs = st.rx_mbufs)
    (hmbufs : st'.mbufs = (st.stripped f.mbuf).mbufs) : Loaded frames (i + 1) mem st' := by
  have hnodup := List.nodup_cons.mp h.distinct
  refine ⟨hmem.trans h.mem, ?_, ?_, hnodup.2⟩
  · intro j g hg
    have hslot := h.slots (j + 1) g hg
    rw [hslots, Nat.add_right_comm, Nat.add_assoc]
    exact hslot
  · -- only the mbuf of the first frame was changed
    intro g hg
    have hne : g.mbuf ≠ f.mbuf := by
      intro heq
      exact hnodup.1 (heq ▸ List.mem_map_of_mem hg)
    rw [hmbufs]
    exact (Function.update_of_ne hne _ _).trans (h.fields g (List.mem_cons_of_mem _ hg))

/-- A pass of the packet loop leaves the later frames as they are. -/
theorem Loaded.inspect {f : RxFrame} {frames : List RxFrame} {st' : State}
    (h : Loaded (f :: frames) i mem st) (hst' : inspect blacklist f.mbuf st = some st') :
    Loaded frames (i + 1) mem st' := by
  rcases inspect_cases (h.fields f (List.mem_cons_self ..)) hst' with ⟨-, rfl⟩ | ⟨-, rfl⟩
  · have hkeeps := send_packet_keeps f.mbuf (st.stripped f.mbuf)
    exact h.tail hkeeps.mem hkeeps.rx_mbufs hkeeps.mbufs
  · exact h.tail rfl rfl rfl

/-- **Step lemma**: a pass of the packet loop keeps the account. -/
theorem Accounts.inspect {f : RxFrame} {frames : List RxFrame} {st' : State}
    (hacc : Accounts handled forwarded st) (h : Loaded (f :: frames) i mem st)
    (hst' : inspect blacklist f.mbuf st = some st') :
    Accounts (handled ++ [f.mbuf])
      (forwarded ++ ([f].filter (RxFrame.passes blacklist mem)).map RxFrame.mbuf) st' := by
  have hstripped : Accounts handled forwarded (st.stripped f.mbuf) :=
    ⟨hacc.room, hacc.order, hacc.account⟩
  -- the verdict is on the frame as it lies in memory, which no pass has changed
  rcases inspect_cases (h.fields f (List.mem_cons_self ..)) hst' with ⟨hpass, rfl⟩ | ⟨hpass, rfl⟩
  · rw [h.mem] at hpass
    rw [List.filter_cons_of_pos hpass]
    have hsent := hstripped.send_packet f.mbuf
    exact ⟨hsent.room, hsent.order, hsent.account⟩
  · rw [h.mem] at hpass
    rw [List.filter_cons_of_neg hpass]
    have hfreed := hstripped.free_packet f.mbuf
    exact ⟨hfreed.room, hfreed.order.trans (List.append_nil _).symm, hfreed.account⟩

/-- **Run rule**: what each pass keeps, moving its frame from the frames ahead
    to those behind, `k` passes of the packet loop keep. -/
theorem packetLoop_rule (Inv : List RxFrame → List RxFrame → State → Prop)
    (hstep : ∀ behind f ahead i st st', Inv behind (f :: ahead) st →
      Loaded (f :: ahead) i mem st → inspect blacklist f.mbuf st = some st' →
      Inv (behind ++ [f]) ahead st')
    (behind : List RxFrame) {frames : List RxFrame} {k : Nat} {st' : State}
    (hinv : Inv behind frames st)
    (h : Loaded frames i mem st) (hk : k ≤ frames.length)
    (hst' : packetLoop blacklist k i st = some st') :
    Inv (behind ++ frames.take k) (frames.drop k) st' := by
  -- on the number of passes: each one takes the first frame that is left
  induction k generalizing frames i st behind with
  | zero =>
    rw [packetLoop, Option.some.injEq] at hst'
    simpa [← hst'] using hinv
  | succ k ih =>
    rcases frames with _ | ⟨f, frames⟩
    · exact absurd hk (Nat.not_succ_le_zero k)
    · have hslot : st.rx_mbufs i = f.mbuf := h.slots 0 f rfl
      rw [packetLoop, hslot] at hst'
      obtain ⟨st₁, hst₁, hrest⟩ := Option.bind_eq_some_iff.mp hst'
      have hend := ih _ (hstep behind f frames i st st₁ hinv h hst₁) (h.inspect hst₁)
        (Nat.le_of_succ_le_succ hk) hrest
      rw [List.append_assoc] at hend
      exact hend

/-- **Run lemma**: `k` passes of the packet loop keep the account. -/
theorem Accounts.packetLoop {frames : List RxFrame} {k : Nat} {st' : State}
    (hacc : Accounts handled forwarded st) (h : Loaded frames i mem st) (hk : k ≤ frames.length)
    (hst' : packetLoop blacklist k i st = some st') :
    Accounts (handled ++ (frames.take k).map RxFrame.mbuf)
      (forwarded ++ ((frames.take k).filter (RxFrame.passes blacklist mem)).map RxFrame.mbuf)
      st' := by
  refine packetLoop_rule (fun behind _ st => Accounts (handled ++ behind.map RxFrame.mbuf)
    (forwarded ++ (behind.filter (RxFrame.passes blacklist mem)).map RxFrame.mbuf) st)
    ?_ [] ?_ h hk hst'
  · intro behind f ahead i st st' hinv hload hpass
    have hnext := hinv.inspect hload hpass
    rw [List.append_assoc, List.append_assoc] at hnext
    rw [List.map_append, List.filter_append, List.map_append]
    exact hnext
  · simpa using hacc

/-- The packet loop returns when every frame has an Ethernet header. -/
theorem packetLoop_returns (blacklist : List (BitVec 32)) {frames : List RxFrame} {k : Nat}
    (h : Loaded frames i mem st) (hk : k ≤ frames.length)
    (hheaders : ∀ f ∈ frames.take k, f.HasHeader) :
    ∃ st', packetLoop blacklist k i st = some st' := by
  induction k generalizing frames i st with
  | zero => exact ⟨st, rfl⟩
  | succ k ih =>
    rcases frames with _ | ⟨f, frames⟩
    · exact absurd hk (Nat.not_succ_le_zero k)
    · have hslot : st.rx_mbufs i = f.mbuf := h.slots 0 f rfl
      obtain ⟨st₁, hst₁⟩ := inspect_returns blacklist (h.fields f (List.mem_cons_self ..))
        (hheaders f (List.mem_cons_self ..))
      rw [packetLoop, hslot, hst₁, Option.bind_some]
      exact ih (h.inspect hst₁) (Nat.le_of_succ_le_succ hk)
        fun g hg => hheaders g (List.mem_cons_of_mem _ hg)

end loop

/-! ## Section 3: Whole runs -/

section receive

theorem foldl_update_of_not_mem (frames : List RxFrame) (mbufs : Mbuf → MbufFields) {m : Mbuf}
    (h : m ∉ frames.map RxFrame.mbuf) :
    frames.foldl (fun mbufs f => Function.update mbufs f.mbuf f.toMbufFields) mbufs m =
      mbufs m := by
  induction frames generalizing mbufs with
  | nil => rfl
  | cons f frames ih =>
    rw [List.map_cons, List.mem_cons, not_or] at h
    exact (ih _ h.2).trans (Function.update_of_ne h.1 _ _)

/-- Each mbuf of a burst ends up with its own fields. -/
theorem foldl_update_of_mem (frames : List RxFrame) (mbufs : Mbuf → MbufFields)
    (hdistinct : (frames.map RxFrame.mbuf).Nodup) {f : RxFrame} (hf : f ∈ frames) :
    frames.foldl (fun mbufs f => Function.update mbufs f.mbuf f.toMbufFields) mbufs f.mbuf =
      f.toMbufFields := by
  induction frames generalizing mbufs with
  | nil => exact absurd hf List.not_mem_nil
  | cons g frames ih =>
    obtain ⟨hnew, hrest⟩ := List.nodup_cons.mp hdistinct
    rcases List.mem_cons.mp hf with rfl | hmem
    · exact (foldl_update_of_not_mem frames _ hnew).trans (Function.update_self _ _ _)
    · exact ih _ hrest hmem

/-- After a poll the packet loop has the whole burst in front of it. -/
theorem rte_eth_rx_burst_loaded (burst : RxBurst) (st : State) :
    Loaded burst.frames 0 burst.mem (rte_eth_rx_burst burst st) := by
  refine ⟨rfl, ?_, ?_, burst.distinct⟩
  · intro j f hf
    rw [Nat.zero_add]
    show (burst.frames[j]?.map RxFrame.mbuf).getD (st.rx_mbufs j) = f.mbuf
    rw [hf]
    rfl
  · intro f hf
    exact foldl_update_of_mem burst.frames st.mbufs burst.distinct hf

theorem Accounts.rte_eth_rx_burst {handled forwarded : List Mbuf} {st : State}
    (h : Accounts handled forwarded st) (burst : RxBurst) :
    Accounts handled forwarded (rte_eth_rx_burst burst st) :=
  ⟨h.room, h.order, h.account⟩

end receive

/-- The mbufs of a sequence of bursts. -/
def received (bursts : List RxBurst) : List Mbuf :=
  bursts.flatMap fun burst => burst.frames.map RxFrame.mbuf

/-- The mbufs of a sequence of bursts whose address is not blacklisted. -/
def passed (blacklist : List (BitVec 32)) (bursts : List RxBurst) : List Mbuf :=
  bursts.flatMap fun burst =>
    (burst.frames.filter (RxFrame.passes blacklist burst.mem)).map RxFrame.mbuf

/-- Whole iterations for `bursts`, then `k` packets of one more burst. -/
def main_loopUpTo (blacklist : List (BitVec 32)) (bursts : List RxBurst) (next : RxBurst)
    (k : Nat) (st : State) : Option State :=
  (main_loop blacklist bursts st).bind fun st =>
    packetLoop blacklist k 0 (rte_eth_rx_burst next st)

section runs
variable {blacklist : List (BitVec 32)}

theorem main_loop_cons (burst : RxBurst) (bursts : List RxBurst) (st : State) :
    main_loop blacklist (burst :: bursts) st =
      (iteration blacklist burst st).bind (main_loop blacklist bursts) := rfl

/-- **Run lemma**: every number of iterations keeps the account. -/
theorem Accounts.main_loop {bursts : List RxBurst} {handled forwarded : List Mbuf}
    {st st' : State} (hacc : Accounts handled forwarded st)
    (hst' : main_loop blacklist bursts st = some st') :
    Accounts (handled ++ received bursts) (forwarded ++ passed blacklist bursts) st' := by
  induction bursts generalizing st handled forwarded with
  | nil =>
    rw [CFirewall.main_loop, Option.some.injEq] at hst'
    simpa [received, passed, ← hst'] using hacc
  | cons burst bursts ih =>
    rw [main_loop_cons] at hst'
    obtain ⟨st₁, hst₁, hrest⟩ := Option.bind_eq_some_iff.mp hst'
    -- a whole iteration, then the ones behind it
    have hiter := (hacc.rte_eth_rx_burst burst).packetLoop (rte_eth_rx_burst_loaded burst st)
      (Nat.le_refl _) hst₁
    rw [List.take_length] at hiter
    have hend := ih hiter hrest
    rw [List.append_assoc, List.append_assoc] at hend
    exact hend

theorem main_loop_returns (blacklist : List (BitVec 32)) (bursts : List RxBurst) (st : State)
    (hheaders : ∀ burst ∈ bursts, ∀ f ∈ burst.frames, f.HasHeader) :
    ∃ st', main_loop blacklist bursts st = some st' := by
  induction bursts generalizing st with
  | nil => exact ⟨st, rfl⟩
  | cons burst bursts ih =>
    have hloop := packetLoop_returns blacklist (rte_eth_rx_burst_loaded burst st)
      (Nat.le_refl _) fun f hf => hheaders burst (List.mem_cons_self ..) f (List.mem_of_mem_take hf)
    obtain ⟨st₁, hst₁⟩ := hloop
    obtain ⟨st', hst'⟩ := ih st₁ fun b hb => hheaders b (List.mem_cons_of_mem _ hb)
    refine ⟨st', ?_⟩
    rw [main_loop_cons, show iteration blacklist burst st = some st₁ from hst₁, Option.bind_some]
    exact hst'

end runs

theorem boot_accounts (mem : Memory 64) (mbufs : Mbuf → MbufFields)
    (accept : Nat → (n : Nat) → Fin (n + 1)) : Accounts [] [] (State.boot mem mbufs accept) :=
  ⟨show 0 < MAX_PKT_BURST by decide, rfl, List.Perm.refl _⟩

/-- A run gets as far as its frames have Ethernet headers. -/
theorem main_loopUpTo_returns (blacklist : List (BitVec 32)) (bursts : List RxBurst)
    (next : RxBurst) (k : Nat) (hk : k ≤ next.frames.length) (st : State)
    (hheaders : ∀ f ∈ bursts.flatMap RxBurst.frames ++ next.frames.take k, f.HasHeader) :
    ∃ st', main_loopUpTo blacklist bursts next k st = some st' := by
  obtain ⟨st₁, hst₁⟩ := main_loop_returns blacklist bursts st fun burst hburst f hf =>
    hheaders f (List.mem_append_left _ (List.mem_flatMap.mpr ⟨burst, hburst, hf⟩))
  rw [main_loopUpTo, hst₁, Option.bind_some]
  exact packetLoop_returns blacklist (rte_eth_rx_burst_loaded next st₁) hk
    fun f hf => hheaders f (List.mem_append_right _ hf)

/-- **Main**: after any number of iterations and any number of packets of the
    next one, every mbuf handled is accounted for exactly once, the list has
    room, and the mbufs presented and pending are those that passed, in order.
    The run gets that far unless a frame is too short for its header. -/
theorem main_loop_conserves (blacklist : List (BitVec 32)) (mem : Memory 64)
    (mbufs : Mbuf → MbufFields) (accept : Nat → (n : Nat) → Fin (n + 1)) (bursts : List RxBurst)
    (next : RxBurst) (k : Nat) (hk : k ≤ next.frames.length) :
    ((∀ f ∈ bursts.flatMap RxBurst.frames ++ next.frames.take k, f.HasHeader) →
      ∃ st, main_loopUpTo blacklist bursts next k (State.boot mem mbufs accept) = some st) ∧
    ∀ st, main_loopUpTo blacklist bursts next k (State.boot mem mbufs accept) = some st →
      (received bursts ++ (next.frames.take k).map RxFrame.mbuf).Perm
        ((owned st.txBursts).map TxFrame.mbuf ++ st.freed ++ st.pending) ∧
      st.send_list.len < 512 ∧
      (presented st.txBursts).map TxFrame.mbuf ++ st.pending = passed blacklist bursts ++
        ((next.frames.take k).filter (RxFrame.passes blacklist next.mem)).map RxFrame.mbuf := by
  constructor
  · exact main_loopUpTo_returns blacklist bursts next k hk _
  · intro st hst
    obtain ⟨st₁, hst₁, hrest⟩ := Option.bind_eq_some_iff.mp hst
    -- the accounts after the whole bursts, then over the first `k` frames of the next one
    have hacc := (boot_accounts mem mbufs accept).main_loop hst₁
    have hend := (hacc.rte_eth_rx_burst next).packetLoop (rte_eth_rx_burst_loaded next st₁) hk hrest
    exact ⟨hend.account, hend.room, hend.order⟩

/-- Two frames of 60 bytes over zeroed memory: both are for address 0. -/
def sampleBurst : RxBurst where
  frames := [⟨⟨0x1000, 60, 60⟩, 0x100⟩, ⟨⟨0x2000, 60, 60⟩, 0x200⟩]
  mem := fun _ => 0
  bound := by decide
  distinct := by decide

/-- The `i`-th of the frames of 60 bytes in a full burst. -/
def frameAt (i : Nat) : RxFrame :=
  ⟨⟨BitVec.ofNat 64 (0x10000 + 2048 * i), 60, 60⟩, BitVec.ofNat 64 (0x1000 + i)⟩

theorem frameAt_mbuf_toNat {i : Nat} (h : i < 512) : (frameAt i).mbuf.toNat = 0x1000 + i := by
  rw [frameAt, BitVec.toNat_ofNat]
  omega

/-- A burst of `n` such frames, over zeroed memory. -/
def burstOf (n : Nat) (h : n ≤ MAX_PKT_BURST) : RxBurst where
  frames := (List.range n).map frameAt
  mem := fun _ => 0
  bound := by simpa using h
  distinct := by
    rw [List.map_map]
    refine List.Nodup.map_on (fun i hi j hj heq => ?_) List.nodup_range
    have hsame := congrArg BitVec.toNat heq
    rw [Function.comp_apply, Function.comp_apply,
      frameAt_mbuf_toNat (Nat.lt_of_lt_of_le (List.mem_range.mp hi) h),
      frameAt_mbuf_toNat (Nat.lt_of_lt_of_le (List.mem_range.mp hj) h)] at hsame
    omega

/-- As many frames as one poll may return. -/
def fullBurst : RxBurst := burstOf 512 (Nat.le_refl _)

theorem fullBurst_length : fullBurst.frames.length = 512 := by simp [fullBurst, burstOf]

theorem burstOf_hasHeader {n : Nat} {h : n ≤ MAX_PKT_BURST} {f : RxFrame}
    (hf : f ∈ (burstOf n h).frames) : f.HasHeader := by
  obtain ⟨i, -, rfl⟩ := List.mem_map.mp hf
  exact show 14 ≤ (60 : BitVec 16).toNat by decide

theorem sample_hasHeader :
    ∀ f ∈ [sampleBurst].flatMap RxBurst.frames ++ fullBurst.frames.take 510, f.HasHeader := by
  have htwo : ∀ f ∈ [sampleBurst].flatMap RxBurst.frames, f.HasHeader := by decide
  intro f hf
  rcases List.mem_append.mp hf with hold | hnew
  · exact htwo f hold
  · exact burstOf_hasHeader (List.mem_of_mem_take hnew)

theorem destAddr_zero (a : Addr) : destAddr (fun _ => 0) a = 0 := by
  have hload : loadLE (fun _ => (0 : BitVec 8)) (cell a DST_ADDR) 4 = 0 := by simp [loadLE]
  rw [destAddr, hload]
  decide

/-- Over zeroed memory every frame is for address 0, which is not listed. -/
theorem filter_passes_zero (frames : List RxFrame) :
    frames.filter (RxFrame.passes [1] fun _ => 0) = frames := by
  apply List.filter_eq_self.mpr
  intro f _
  rw [RxFrame.passes, destAddr_zero]
  decide

/-- A NIC that takes half of what it is offered. -/
def takesHalf (_ n : Nat) : Fin (n + 1) := ⟨n / 2, Nat.lt_succ_of_le (Nat.div_le_self n 2)⟩

/-- Two frames wait when a full burst arrives. With 510 more the list is full:
    it is presented, and half of it is freed. -/
theorem main_loop_conserves_sample :
    ∃ st, main_loopUpTo [1] [sampleBurst] fullBurst 510
        (State.boot (fun _ => 0) (fun _ => ⟨0, 0, 0⟩) takesHalf) = some st ∧
      (received [sampleBurst] ++ (fullBurst.frames.take 510).map RxFrame.mbuf).Perm
        ((owned st.txBursts).map TxFrame.mbuf ++ st.freed ++ st.pending) ∧
      st.send_list.len < 512 ∧ presented st.txBursts ≠ [] := by
  obtain ⟨hreturns, hall⟩ := main_loop_conserves [1] (fun _ => 0) (fun _ => ⟨0, 0, 0⟩)
    takesHalf [sampleBurst] fullBurst 510 (by rw [fullBurst_length]; decide)
  obtain ⟨st, hst⟩ := hreturns sample_hasHeader
  obtain ⟨haccount, hroom, horder⟩ := hall st hst
  refine ⟨st, hst, haccount, hroom, fun hnone => ?_⟩
  -- all 512 frames pass, and fewer than that can wait
  have htwo : (passed [1] [sampleBurst]).length = 2 := by
    rw [passed, List.flatMap_singleton, List.length_map]
    exact congrArg List.length (filter_passes_zero sampleBurst.frames)
  have hrest : ((fullBurst.frames.take 510).filter
      (RxFrame.passes [1] fullBurst.mem)).length = 510 := by
    rw [show fullBurst.mem = fun _ => 0 from rfl, filter_passes_zero, List.length_take,
      fullBurst_length]
    rfl
  have hlength := congrArg List.length horder
  rw [hnone, List.map_nil, List.nil_append, State.length_pending, List.length_append,
    List.length_map, htwo, hrest] at hlength
  exact absurd hroom (by omega)

end PacketPro.CFirewall
