import PacketPro.CFirewall.Conservation
import PacketPro.Framework.Transitions

/-! # Two Lcores

    `main` launches `main_loop` on every worker lcore. Each one polls its own
    queue, but all of them poll into the same file-scope array `rx_mbufs`. The
    model interleaves two lcores; a poll and the body of the packet loop for
    one packet are one step each.

    * `Isolated`: each lcore inspects what was delivered to it.
    * `Undisturbed`: a poll does not overwrite slots that the other lcore has
      still to look at. Runs of such steps keep the lcores isolated
      (`isolated_while_undisturbed`); a single other step is enough to mix them
      up (`second_poll_overwrites_first`).
-/

open ByteMem Transitions

namespace PacketPro.CFirewall

/-! ## Section 1: The system -/

/-- The lcore with id 1 polls queue 0, the other one queue 1. -/
inductive Lcore where
  | first
  | second
  deriving DecidableEq, Repr

def Lcore.other : Lcore → Lcore
  | .first => .second
  | .second => .first

/-- The local variables of `main_loop` on one lcore, and what happened there. -/
structure Local where
  recv_cnt : Nat
  i : Nat
  /-- What `rte_eth_rx_burst` returned for this lcore, oldest first. -/
  delivered : List Mbuf
  /-- What the packet loop of this lcore looked at, oldest first. -/
  inspected : List Mbuf

/-- The file-scope variables are shared. -/
structure Cores where
  shared : State
  core : Lcore → Local

inductive Action where
  | poll (c : Lcore) (burst : RxBurst)
  | packet (c : Lcore)

/-- The lcore after a poll. -/
def Local.polled (l : Local) (burst : RxBurst) : Local :=
  { l with recv_cnt := burst.frames.length, i := 0
           delivered := l.delivered ++ burst.frames.map RxFrame.mbuf }

/-- The lcore after a packet. -/
def Local.advanced (l : Local) (m : Mbuf) : Local :=
  { l with i := l.i + 1, inspected := l.inspected ++ [m] }

namespace Cores

/-- Lcore `c` polls into the shared array. -/
def polled (s : Cores) (c : Lcore) (burst : RxBurst) : Cores :=
  ⟨rte_eth_rx_burst burst s.shared, Function.update s.core c ((s.core c).polled burst)⟩

/-- The slot that lcore `c` looks at next. -/
def next (s : Cores) (c : Lcore) : Mbuf := s.shared.rx_mbufs (s.core c).i

/-- Lcore `c` has handled that slot, which left `shared`. -/
def advanced (s : Cores) (c : Lcore) (shared : State) : Cores :=
  ⟨shared, Function.update s.core c ((s.core c).advanced (s.next c))⟩

end Cores

/-- Two lcores in `main_loop`: a poll when the packet loop is over, a packet
    while it is not. -/
def twoLcores (blacklist : List (BitVec 32)) (st : State) : System Cores Action where
  init := fun s => s = ⟨st, fun _ => ⟨0, 0, [], []⟩⟩
  step := fun s a s' =>
    match a with
    | .poll c burst =>
      (s.core c).recv_cnt ≤ (s.core c).i ∧ s' = s.polled c burst
    | .packet c =>
      (s.core c).i < (s.core c).recv_cnt ∧
      ∃ shared, inspect blacklist (s.next c) s.shared = some shared ∧ s' = s.advanced c shared

/-- What each lcore has inspected is what was delivered to it, up to the part
    of the last burst that it has still to inspect. -/
def Isolated (s : Cores) : Prop :=
  ∀ c, ∃ rest, rest.length = (s.core c).recv_cnt - (s.core c).i ∧
    (s.core c).delivered = (s.core c).inspected ++ rest

/-- A poll comes when the other lcore has inspected its whole burst, or at
    least as many packets of it as the poll returns. -/
def Undisturbed (s : Cores) : Action → Prop
  | .poll c burst => (s.core c.other).recv_cnt ≤ (s.core c.other).i ∨
      burst.frames.length ≤ (s.core c.other).i
  | .packet _ => True

/-! ## Section 2: The invariant -/

/-- The part of the array that an lcore has still to inspect holds the end of
    what was delivered to it. -/
def Owns (s : Cores) (c : Lcore) : Prop :=
  ∃ rest, rest.length = (s.core c).recv_cnt - (s.core c).i ∧
    (s.core c).delivered = (s.core c).inspected ++ rest ∧
    ∀ j m, rest[j]? = some m → s.shared.rx_mbufs ((s.core c).i + j) = m

namespace Cores

variable {s : Cores} {c d : Lcore}

theorem polled_core_self (burst : RxBurst) :
    (s.polled c burst).core c = (s.core c).polled burst :=
  Function.update_self ..

theorem polled_core_of_ne (h : d ≠ c) (burst : RxBurst) :
    (s.polled c burst).core d = s.core d :=
  Function.update_of_ne h ..

theorem advanced_core_self (shared : State) :
    (s.advanced c shared).core c = (s.core c).advanced (s.next c) :=
  Function.update_self ..

theorem advanced_core_of_ne (h : d ≠ c) (shared : State) :
    (s.advanced c shared).core d = s.core d :=
  Function.update_of_ne h ..

end Cores

/-- The packet loop does not store to the array. -/
theorem inspect_rx_mbufs {blacklist : List (BitVec 32)} {m : Mbuf} {st st' : State}
    (h : inspect blacklist m st = some st') : st'.rx_mbufs = st.rx_mbufs := by
  let f : RxFrame := ⟨st.mbufs m, m⟩
  have hf : inspect blacklist f.mbuf st = some st' := h
  rcases inspect_cases rfl hf with ⟨-, rfl⟩ | ⟨-, rfl⟩
  · exact (send_packet_keeps f.mbuf (st.stripped f.mbuf)).rx_mbufs
  · rfl

/-- A poll stores to the slots of its burst only. -/
theorem rte_eth_rx_burst_slot (burst : RxBurst) (st : State) {i : Nat}
    (h : burst.frames.length ≤ i) : (rte_eth_rx_burst burst st).rx_mbufs i = st.rx_mbufs i := by
  show (burst.frames[i]?.map RxFrame.mbuf).getD (st.rx_mbufs i) = _
  rw [List.getElem?_eq_none h]
  rfl

section steps
variable {s : Cores} {c : Lcore}

/-- An lcore that polls owns the burst it gets. -/
theorem owns_after_poll (h : Owns s c) (hdone : (s.core c).recv_cnt ≤ (s.core c).i)
    (burst : RxBurst) : Owns (s.polled c burst) c := by
  obtain ⟨rest, hlen, hsplit, -⟩ := h
  -- it polls only when nothing of its last burst is left
  have hrest : rest = [] := List.eq_nil_of_length_eq_zero (by omega)
  unfold Owns
  rw [Cores.polled_core_self]
  refine ⟨burst.frames.map RxFrame.mbuf, by simp [Local.polled], ?_, ?_⟩
  · show (s.core c).delivered ++ _ = (s.core c).inspected ++ _
    rw [hsplit, hrest, List.append_nil]
  · intro j m hm
    rw [List.getElem?_map] at hm
    show (burst.frames[0 + j]?.map RxFrame.mbuf).getD _ = m
    rw [Nat.zero_add, hm]
    rfl

/-- An lcore keeps what it owns while the other one polls undisturbed. -/
theorem owns_after_other_poll {d : Lcore} (h : Owns s d) (hne : d ≠ c) (burst : RxBurst)
    (hclear : (s.core d).recv_cnt ≤ (s.core d).i ∨ burst.frames.length ≤ (s.core d).i) :
    Owns (s.polled c burst) d := by
  obtain ⟨rest, hlen, hsplit, hslots⟩ := h
  unfold Owns
  rw [Cores.polled_core_of_ne hne]
  refine ⟨rest, hlen, hsplit, ?_⟩
  intro j m hm
  obtain ⟨hj, -⟩ := List.getElem?_eq_some_iff.mp hm
  -- a slot still to be inspected is beyond the burst
  rcases hclear with hdone | hshort
  · omega
  · exact (rte_eth_rx_burst_slot burst s.shared (by omega)).trans (hslots j m hm)

/-- An lcore inspects the next mbuf that it owns. -/
theorem owns_after_packet (h : Owns s c) (hlt : (s.core c).i < (s.core c).recv_cnt)
    {shared : State} (hslots : shared.rx_mbufs = s.shared.rx_mbufs) :
    Owns (s.advanced c shared) c := by
  obtain ⟨rest, hlen, hsplit, hrest⟩ := h
  unfold Owns
  rw [Cores.advanced_core_self]
  rcases rest with _ | ⟨m, rest⟩
  · simp only [List.length_nil] at hlen
    omega
  · -- the slot at `i` holds the first mbuf that is left
    have hnext : s.next c = m := hrest 0 m rfl
    refine ⟨rest, ?_, ?_, ?_⟩
    · show rest.length = (s.core c).recv_cnt - ((s.core c).i + 1)
      simp only [List.length_cons] at hlen
      omega
    · show (s.core c).delivered = (s.core c).inspected ++ [_] ++ rest
      rw [hsplit, hnext, List.append_assoc]
      rfl
    · intro j m' hm'
      show shared.rx_mbufs ((s.core c).i + 1 + j) = m'
      rw [hslots, Nat.add_right_comm, Nat.add_assoc]
      exact hrest (j + 1) m' hm'

theorem owns_after_other_packet {d : Lcore} (h : Owns s d) (hne : d ≠ c) {shared : State}
    (hslots : shared.rx_mbufs = s.shared.rx_mbufs) : Owns (s.advanced c shared) d := by
  obtain ⟨rest, hlen, hsplit, hrest⟩ := h
  unfold Owns
  rw [Cores.advanced_core_of_ne hne]
  refine ⟨rest, hlen, hsplit, ?_⟩
  intro j m hm
  exact (congrFun hslots _).trans (hrest j m hm)

end steps

/-! ## Section 3: Every run -/

section runs
variable (blacklist : List (BitVec 32)) (st : State)

theorem Lcore.eq_other_of_ne {c d : Lcore} (h : d ≠ c) : d = c.other := by
  cases c <;> cases d <;> first | rfl | exact absurd rfl h

/-- **Step lemma**: an undisturbed step of either lcore leaves both lcores
    with what they own. -/
theorem owns_step {s s' : Cores} {a : Action} (h : ∀ c, Owns s c) (hok : Undisturbed s a)
    (hstep : (twoLcores blacklist st).step s a s') : ∀ c, Owns s' c := by
  intro d
  cases a with
  | poll c burst =>
    obtain ⟨hdone, rfl⟩ := hstep
    by_cases hd : d = c
    · subst hd
      exact owns_after_poll (h d) hdone burst
    · exact owns_after_other_poll (h d) hd burst (Lcore.eq_other_of_ne hd ▸ hok)
  | packet c =>
    obtain ⟨hlt, shared, hshared, rfl⟩ := hstep
    -- a packet changes the shared send list, but no slot of `rx_mbufs`
    have hslots := inspect_rx_mbufs hshared
    by_cases hd : d = c
    · subst hd
      exact owns_after_packet (h d) hlt hslots
    · exact owns_after_other_packet (h d) hd hslots

theorem owns_of_reachable {s : Cores}
    (h : ReachableWhile (twoLcores blacklist st) Undisturbed s) : ∀ c, Owns s c := by
  refine ReachableWhile.invariant (fun s => ∀ c, Owns s c) ?_ ?_ h
  · rintro s rfl c
    exact ⟨[], rfl, rfl, fun j m hm => absurd hm (by simp)⟩
  · intro s a s' hs hok hstep
    exact owns_step blacklist st hs hok hstep

/-- A poll into slots that the other lcore has still to inspect makes it
    inspect the wrong mbuf next. -/
theorem not_isolated_after_overwrite {s s₁ s₂ : Cores} {c : Lcore} {burst : RxBurst}
    (h : Owns s c.other) (hdisturbed : ¬ Undisturbed s (.poll c burst))
    (hfresh : ∀ m ∈ (s.core c.other).delivered.drop (s.core c.other).inspected.length,
      m ∉ burst.frames.map RxFrame.mbuf)
    (hpoll : (twoLcores blacklist st).step s (.poll c burst) s₁)
    (hpacket : (twoLcores blacklist st).step s₁ (.packet c.other) s₂) : ¬ Isolated s₂ := by
  obtain ⟨rest, hlen, hsplit, -⟩ := h
  obtain ⟨hmid, hover⟩ := not_or.mp hdisturbed
  obtain ⟨-, rfl⟩ := hpoll
  obtain ⟨-, shared, -, rfl⟩ := hpacket
  have hne : c.other ≠ c := by cases c <;> exact nofun
  have hother : (s.polled c burst).core c.other = s.core c.other :=
    Cores.polled_core_of_ne hne burst
  -- the slot that the other lcore looks at next holds an mbuf of the new burst
  have hi : (s.core c.other).i < burst.frames.length := Nat.not_le.mp hover
  have hslot : (s.polled c burst).next c.other = (burst.frames.get ⟨_, hi⟩).mbuf := by
    rw [Cores.next, hother]
    show (burst.frames[(s.core c.other).i]?.map RxFrame.mbuf).getD _ = _
    rw [List.getElem?_eq_getElem hi]
    rfl
  rcases rest with _ | ⟨m, rest⟩
  · simp only [List.length_nil] at hlen
    omega
  · intro hisolated
    obtain ⟨rest', -, hdelivered⟩ := hisolated c.other
    rw [Cores.advanced_core_self, hslot, hother] at hdelivered
    have hdelivered' : (s.core c.other).delivered = (s.core c.other).inspected ++
        [(burst.frames.get ⟨_, hi⟩).mbuf] ++ rest' := hdelivered
    rw [hsplit, List.append_assoc, List.append_cancel_left_eq, List.singleton_append,
      List.cons.injEq] at hdelivered'
    refine hfresh m ?_ ?_
    · rw [hsplit, List.drop_left]
      exact List.mem_cons_self ..
    · rw [hdelivered'.1]
      exact List.mem_map_of_mem (List.get_mem ..)

/-- **Main**: in every run of undisturbed steps each lcore inspects what was
    delivered to it. Conversely, when a poll of such a run is not undisturbed
    and brings no mbuf that is still to be inspected, the next packet of the
    other lcore is the wrong one. -/
theorem isolated_while_undisturbed :
    (∀ s, ReachableWhile (twoLcores blacklist st) Undisturbed s → Isolated s) ∧
    ∀ s c burst s₁ s₂, ReachableWhile (twoLcores blacklist st) Undisturbed s →
      ¬ Undisturbed s (.poll c burst) →
      (∀ m ∈ (s.core c.other).delivered.drop (s.core c.other).inspected.length,
        m ∉ burst.frames.map RxFrame.mbuf) →
      (twoLcores blacklist st).step s (.poll c burst) s₁ →
      (twoLcores blacklist st).step s₁ (.packet c.other) s₂ → ¬ Isolated s₂ := by
  constructor
  · intro s h c
    obtain ⟨rest, hlen, hsplit, -⟩ := owns_of_reachable blacklist st h c
    exact ⟨rest, hlen, hsplit⟩
  · intro s c burst s₁ s₂ h hdisturbed hfresh hpoll hpacket
    exact not_isolated_after_overwrite blacklist st (owns_of_reachable blacklist st h c.other)
      hdisturbed hfresh hpoll hpacket

end runs

/-! ### Two schedules -/

/-- A burst of one frame of 60 bytes, over zeroed memory. -/
def oneFrame (m : Mbuf) (data : Addr) : RxBurst where
  frames := [⟨⟨data, 60, 60⟩, m⟩]
  mem := fun _ => 0
  bound := show 1 ≤ MAX_PKT_BURST by decide
  distinct := List.pairwise_singleton _ m

/-- The start-up state of the two lcores. -/
def coldStart : Cores :=
  ⟨State.boot (fun _ => 0) (fun _ => ⟨0, 0, 0⟩) (fun _ n => Fin.last n), fun _ => ⟨0, 0, [], []⟩⟩

/-- One lcore after the other: the first one inspects its packet, then the
    second one polls. -/
theorem isolated_one_after_the_other :
    ∃ s, ReachableWhile (twoLcores [1] coldStart.shared) Undisturbed s ∧
      (s.core .first).inspected = [0x100] ∧ (s.core .second).delivered = [0x200] ∧
      Isolated s := by
  obtain ⟨shared, hshared⟩ := inspect_returns [1] (f := ⟨⟨0x1000, 60, 60⟩, 0x100⟩)
    (show (coldStart.polled .first (oneFrame 0x100 0x1000)).shared.mbufs 0x100 = _ by decide)
    (by decide)
  have hstart : ReachableWhile (twoLcores [1] coldStart.shared) Undisturbed coldStart :=
    ReachableWhile.init rfl
  have hpoll := hstart.step (a := Action.poll .first (oneFrame 0x100 0x1000))
    (Or.inl (by decide)) ⟨by decide, rfl⟩
  have hpacket := hpoll.step (a := Action.packet .first) trivial
    ⟨by decide, shared, hshared, rfl⟩
  have hother := hpacket.step (a := Action.poll .second (oneFrame 0x200 0x2000))
    (Or.inl (Nat.le_refl 1)) ⟨Nat.le_refl 0, rfl⟩
  exact ⟨_, hother, rfl, rfl, (isolated_while_undisturbed [1] coldStart.shared).1 _ hother⟩

/-- Both lcores poll before the first one inspects its packet: it inspects the
    mbuf of the second one, and its own one is skipped. -/
theorem second_poll_overwrites_first :
    ∃ s, Reachable (twoLcores [1] coldStart.shared) s ∧
      (s.core .first).delivered = [0x100] ∧ (s.core .first).inspected = [0x200] ∧
      (s.core .first).i = (s.core .first).recv_cnt ∧ ¬ Isolated s := by
  obtain ⟨shared, hshared⟩ := inspect_returns [1] (f := ⟨⟨0x2000, 60, 60⟩, 0x200⟩)
    (show ((coldStart.polled .first (oneFrame 0x100 0x1000)).polled .second
      (oneFrame 0x200 0x2000)).shared.mbufs 0x200 = _ by decide) (by decide)
  have hstart : Reachable (twoLcores [1] coldStart.shared) coldStart := Reachable.init rfl
  have hfirst := hstart.step (a := Action.poll .first (oneFrame 0x100 0x1000)) ⟨by decide, rfl⟩
  have hsecond := hfirst.step (a := Action.poll .second (oneFrame 0x200 0x2000)) ⟨by decide, rfl⟩
  have hpacket := hsecond.step (a := Action.packet .first) ⟨by decide, shared, hshared, rfl⟩
  refine ⟨_, hpacket, rfl, rfl, rfl, ?_⟩
  intro hisolated
  obtain ⟨rest, -, hdelivered⟩ := hisolated .first
  have hhead : ([0x100] : List Mbuf) = [0x200] ++ rest := hdelivered
  exact absurd (List.cons.inj hhead).1 (by decide)

end PacketPro.CFirewall
