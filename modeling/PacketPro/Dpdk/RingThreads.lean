import PacketPro.Dpdk.Ring

/-! # Threads on a Ring

    The ring is correct for any number of threads, whatever the order of their
    accesses.

    * `ring_is_fifo`: the calls that have returned, in the order of their stores
      to `tail`, are a run of a FIFO queue of `size - 1` objects, and that queue
      is what lies between the two tails.
    * `ring_refuses_rightly`: a call that gives up had to.

    There are two things a run must not do, which `Timely` names. It must not
    call for no object: such a call could store a tail that others have moved
    on. And, as the four indices have 32 bits and wrap around, it must not let a
    head move by 2^32 objects between the load of the head and the
    compare-and-set that relies on it.
-/

open Transitions Reservation

namespace PacketPro.Dpdk

variable {ι α : Type}

/-! ## Section 1: The simulation

    The indices of the ring are the positions of a queue by reservation, cut
    down to 32 bits. -/

/-- The memory of the ring, as the queue by reservation has it. -/
structure Represents (k : Nat) (r : Ring α) (a : Reservation.State ι α) : Prop where
  size : r.size.toNat = 2 ^ k
  mask : r.mask.toNat = 2 ^ k - 1
  slots : r.ring = a.slots
  prod_head : r.prod_head = BitVec.ofNat 32 a.claimed.length
  prod_tail : r.prod_tail = BitVec.ofNat 32 a.published.length
  cons_head : r.cons_head = BitVec.ofNat 32 a.reserved
  cons_tail : r.cons_tail = BitVec.ofNat 32 a.consumed.length

/-- The local variables of a call, and its role in the queue by reservation. What
    a thread has loaded is behind by now, never ahead. -/
inductive Follows (k : Nat) (a : Reservation.State ι α) (seen : Nat) : Pc α → Role α → Prop where
  | idle : Follows k a seen .idle .idle
  | loadProdHead {c : Enqueue α} (hmax : c.max ≠ 0) : Follows k a seen (.loadProdHead c) .idle
  | loadConsTail {c : Enqueue α} (hmax : c.max ≠ 0) (hseen : seen ≤ a.claimed.length)
      (hroom : seen < a.consumed.length + 2 ^ k) :
      Follows k a seen (.loadConsTail c (BitVec.ofNat 32 seen)) .idle
  | moveProdHead {c : Enqueue α} {room : Nat} {n : BitVec 32} (hmax : c.max ≠ 0)
      (hn : burst c.behavior c.max (BitVec.ofNat 32 room) (-ENOBUFS) = .ok n)
      (hseen : seen ≤ a.claimed.length) (hroom : seen + room < a.consumed.length + 2 ^ k) :
      Follows k a seen (.moveProdHead c (BitVec.ofNat 32 seen) (BitVec.ofNat 32 room) n) .idle
  | writeEntry {c : Enqueue α} {start room done : Nat} {n : BitVec 32}
      (hn : burst c.behavior c.max (BitVec.ofNat 32 room) (-ENOBUFS) = .ok n)
      (hsize : n.toNat < 2 ^ k) (hdone : done ≤ n.toNat) :
      Follows k a seen (.writeEntry c (BitVec.ofNat 32 start) (BitVec.ofNat 32 room) n done)
        (.put start (c.first n) done)
  | awaitProdTail {c : Enqueue α} {start : Nat} {n ret : BitVec 32}
      (hret : Return.Honest ⟨.enqueue c, c.first n, ret⟩) :
      Follows k a seen (.awaitProdTail c (BitVec.ofNat 32 start) n ret)
        (.put start (c.first n) n.toNat)
  | storeProdTail {c : Enqueue α} {start : Nat} {n ret : BitVec 32}
      (hret : Return.Honest ⟨.enqueue c, c.first n, ret⟩) (hturn : start ≤ a.published.length) :
      Follows k a seen (.storeProdTail c (BitVec.ofNat 32 start) n ret)
        (.put start (c.first n) n.toNat)
  | loadConsHead {c : Dequeue} (hmax : c.max ≠ 0) : Follows k a seen (.loadConsHead c) .idle
  | loadProdTail {c : Dequeue} (hmax : c.max ≠ 0) (hseen : seen ≤ a.reserved)
      (hroom : seen ≤ a.published.length) :
      Follows k a seen (.loadProdTail c (BitVec.ofNat 32 seen)) .idle
  | moveConsHead {c : Dequeue} {room : Nat} {n : BitVec 32} (hmax : c.max ≠ 0)
      (hn : burst c.behavior c.max (BitVec.ofNat 32 room) (-ENOENT) = .ok n)
      (hseen : seen ≤ a.reserved) (hroom : seen + room ≤ a.published.length) :
      Follows k a seen (.moveConsHead c (BitVec.ofNat 32 seen) n) .idle
  | readEntry {c : Dequeue} {start : Nat} {n : BitVec 32} {obj_table : List α}
      (hret : ∀ objs : List α, objs.length = n.toNat →
        Return.Honest ⟨.dequeue c, objs, dequeueRet c.behavior n⟩) :
      Follows k a seen (.readEntry c (BitVec.ofNat 32 start) n obj_table)
        (.get start n.toNat obj_table)
  | awaitConsTail {c : Dequeue} {start : Nat} {n : BitVec 32} {obj_table : List α}
      (hret : Return.Honest ⟨.dequeue c, obj_table, dequeueRet c.behavior n⟩)
      (hall : obj_table.length = n.toNat) :
      Follows k a seen (.awaitConsTail c (BitVec.ofNat 32 start) n obj_table)
        (.get start n.toNat obj_table)
  | storeConsTail {c : Dequeue} {start : Nat} {n : BitVec 32} {obj_table : List α}
      (hret : Return.Honest ⟨.dequeue c, obj_table, dequeueRet c.behavior n⟩)
      (hall : obj_table.length = n.toNat) (hturn : start ≤ a.consumed.length) :
      Follows k a seen (.storeConsTail c (BitVec.ofNat 32 start) n obj_table)
        (.get start n.toNat obj_table)

structure Simulates (k : Nat) (s : Threads ι α) (a : Reservation.State ι α) : Prop where
  sound : Reservation.Sound (2 ^ k) a
  ring : Represents k s.ring a
  prodMoved : s.prodMoved = a.claimed.length
  consMoved : s.consMoved = a.reserved
  run : QueueRun (2 ^ k - 1) (s.history.map fun x => x.2.event) a.contents
  honest : ∀ x ∈ s.history, x.2.Honest
  follows : ∀ i, Follows k a (s.seen i) (s.pc i) (a.role i)

section frame
variable {k : Nat} {s : Threads ι α} {a a' : Reservation.State ι α}

/-- What other threads do leaves a thread's variables valid. -/
theorem Follows.grows {seen : Nat} {pc : Pc α} {role : Role α} (h : Follows k a seen pc role)
    (hgrows : Grows (2 ^ k) a a') : Follows k a' seen pc role := by
  have hclaimed := hgrows.claimed
  have hpublished := hgrows.published
  have hreserved := hgrows.reserved
  have hconsumed := hgrows.consumed
  cases h with
  | idle => exact .idle
  | loadProdHead hmax => exact .loadProdHead hmax
  | loadConsTail hmax hseen hroom => exact .loadConsTail hmax (by omega) (by omega)
  | moveProdHead hmax hn hseen hroom => exact .moveProdHead hmax hn (by omega) (by omega)
  | writeEntry hn hsize hdone => exact .writeEntry hn hsize hdone
  | awaitProdTail hret => exact .awaitProdTail hret
  | storeProdTail hret hturn => exact .storeProdTail hret (by omega)
  | loadConsHead hmax => exact .loadConsHead hmax
  | loadProdTail hmax hseen hroom => exact .loadProdTail hmax (by omega) (by omega)
  | moveConsHead hmax hn hseen hroom => exact .moveConsHead hmax hn (by omega) (by omega)
  | readEntry hret => exact .readEntry hret
  | awaitConsTail hret hall => exact .awaitConsTail hret hall
  | storeConsTail hret hall hturn => exact .storeConsTail hret hall (by omega)

/-- The calls that have returned are the same after an access that is not the
    last one of its call. -/
theorem Simulates.run_none (h : Simulates k s a) :
    QueueRun (2 ^ k - 1) (s.history.map (fun x => x.2.event) ++
      (Option.map Return.event none).toList) a.contents := by
  simpa using h.run

/-- The free entries, before they are cut down to 32 bits. -/
theorem Simulates.free_entries (h : Simulates k s a) {seen : Nat}
    (hroom : seen < a.consumed.length + 2 ^ k) :
    s.ring.mask + s.ring.cons_tail - BitVec.ofNat 32 seen =
      BitVec.ofNat 32 (2 ^ k - 1 + a.consumed.length - seen) := by
  have hpos := Nat.two_pow_pos k
  have hmask : s.ring.mask = BitVec.ofNat 32 (2 ^ k - 1) := by
    rw [← h.ring.mask, BitVec.ofNat_toNat, BitVec.setWidth_eq]
  rw [hmask, h.ring.cons_tail, ← BitVec.ofNat_add, ofNat_sub_ofNat (by omega)]

end frame

theorem none_honest (x : Return α) (hx : none = some x) : x.Honest := by
  cases hx

/-! ## Section 2: Steps -/

section steps
variable [DecidableEq ι] {k : Nat} {s : Threads ι α} {a a' : Reservation.State ι α} {i : ι}
  {r : Ring α} {pc : Pc α} {ret : Option (Return α)}

/-- What an access has to show: the queue by reservation has moved to `a'`, and
    the thread's variables follow. -/
theorem Simulates.of_access (h : Simulates k s a) (hk : k ≤ 31)
    (haccess : access s.ring (s.pc i) = (r, pc, ret))
    (hsound : Reservation.Sound (2 ^ k) a') (hgrows : Grows (2 ^ k) a a')
    (hrole : ∀ j, j ≠ i → a'.role j = a.role j) (hring : Represents k r a')
    (hrun : QueueRun (2 ^ k - 1) (s.history.map (fun x => x.2.event) ++
      (ret.map Return.event).toList) a'.contents)
    (hhonest : ∀ x, ret = some x → x.Honest)
    (hfollows : Follows k a' (s.loaded i) pc (a'.role i)) : Simulates k (s.accessed i) a' := by
  have hpow : 2 ^ k ≤ 2 ^ 31 := Nat.pow_le_pow_right (by omega) hk
  have hclaimed := hgrows.claimed
  have hclaimed' := hgrows.claimed_le
  have hreserved := hgrows.reserved
  have hreserved' := hgrows.reserved_le
  simp only [Threads.accessed, haccess]
  constructor
  · exact hsound
  · exact hring
  · simp only [hring.prod_head, h.ring.prod_head, ofNat_sub_ofNat hclaimed, h.prodMoved,
      BitVec.toNat_ofNat]
    rw [Nat.mod_eq_of_lt (by omega)]
    omega
  · simp only [hring.cons_head, h.ring.cons_head, ofNat_sub_ofNat hreserved, h.consMoved,
      BitVec.toNat_ofNat]
    rw [Nat.mod_eq_of_lt (by omega)]
    omega
  · cases ret <;> simpa using hrun
  · intro x hx
    rw [List.mem_append] at hx
    rcases hx with hold | hnew
    · exact h.honest x hold
    · cases ret with
      | none => simp at hnew
      | some y =>
        simp only [Option.map_some, Option.toList_some, List.mem_singleton] at hnew
        rw [hnew]
        exact hhonest y rfl
  · intro j
    by_cases hj : j = i
    · subst hj
      simpa using hfollows
    · simp only [Function.update_of_ne hj, hrole j hj]
      exact (h.follows j).grows hgrows

/-- An access that only loads. -/
theorem Simulates.load (h : Simulates k s a) (hk : k ≤ 31)
    (haccess : access s.ring (s.pc i) = (s.ring, pc, none))
    (hfollows : Follows k a (s.loaded i) pc (a.role i)) : Simulates k (s.accessed i) a :=
  h.of_access hk haccess h.sound (Grows.refl ..) (fun _ _ => rfl) h.ring h.run_none none_honest
    hfollows

/-- A call that moves nothing. -/
theorem Simulates.fail (h : Simulates k s a) (hk : k ≤ 31) {x : Return α}
    (haccess : access s.ring (s.pc i) = (s.ring, .idle, some x)) (hobjs : x.objs = [])
    (hrole : a.role i = .idle) (hhonest : x.Honest) : Simulates k (s.accessed i) a := by
  apply h.of_access hk haccess h.sound (Grows.refl ..) (fun _ _ => rfl) h.ring
  · obtain ⟨call, objs, ret⟩ := x
    subst hobjs
    cases call with
    | enqueue c =>
      have hput := h.run.put [] (by simpa using h.run.length_le)
      rw [List.append_nil] at hput
      exact hput
    | dequeue c => exact h.run.get []
  · rintro y ⟨⟩
    exact hhonest
  · rw [hrole]
    exact .idle

theorem Simulates.loadConsTail (h : Simulates k s a) (hk : k ≤ 31) {c : Enqueue α}
    (hpc : s.pc i = .loadConsTail c (BitVec.ofNat 32 (s.seen i))) (hrole : a.role i = .idle)
    (hmax : c.max ≠ 0) (hseen : s.seen i ≤ a.claimed.length)
    (hroom : s.seen i < a.consumed.length + 2 ^ k) : Simulates k (s.accessed i) a := by
  have hloaded : s.loaded i = s.seen i := by simp only [Threads.loaded, hpc]
  have hpos := Nat.two_pow_pos k
  have hfree := h.free_entries hroom
  cases hburst : burst c.behavior c.max
      (BitVec.ofNat 32 (2 ^ k - 1 + a.consumed.length - s.seen i)) (-ENOBUFS) with
  | error ret =>
    exact h.fail hk (by simp only [hpc, access, hfree, hburst]) rfl hrole
      (enqueue_failed_honest hburst)
  | ok n =>
    have haccess : access s.ring (s.pc i) = (s.ring, .moveProdHead c (BitVec.ofNat 32 (s.seen i))
        (BitVec.ofNat 32 (2 ^ k - 1 + a.consumed.length - s.seen i)) n, none) := by
      simp only [hpc, access, hfree, hburst]
    apply h.load hk haccess
    rw [hrole, hloaded]
    exact .moveProdHead hmax hburst hseen (by omega)

/-- The compare-and-set succeeds only if the head is still the one that was
    loaded, so the positions are free. -/
theorem Simulates.moveProdHead (h : Simulates k s a) (hk : k ≤ 31) {c : Enqueue α} {room : Nat}
    {n : BitVec 32}
    (hpc : s.pc i = .moveProdHead c (BitVec.ofNat 32 (s.seen i)) (BitVec.ofNat 32 room) n)
    (hrole : a.role i = .idle) (hmax : c.max ≠ 0)
    (hn : burst c.behavior c.max (BitVec.ofNat 32 room) (-ENOBUFS) = .ok n)
    (hseen : s.seen i ≤ a.claimed.length) (hroom : s.seen i + room < a.consumed.length + 2 ^ k)
    (htimely : s.prodMoved < s.seen i + 2 ^ 32) : ∃ a', Simulates k (s.accessed i) a' := by
  by_cases hsame : s.ring.prod_head = BitVec.ofNat 32 (s.seen i)
  · have hhead : a.claimed.length = s.seen i := by
      rw [h.ring.prod_head] at hsame
      rw [h.prodMoved] at htimely
      exact eq_of_ofNat_eq hseen htimely hsame
    obtain ⟨hfits, -, -, hpos⟩ := burst_ok hn
    have hn' : n.toNat ≤ room := by
      rw [BitVec.toNat_ofNat] at hfits
      exact Nat.le_trans hfits (Nat.mod_le _ _)
    have hsome : c.first n ≠ [] := by
      intro hnil
      have hlen := congrArg List.length hnil
      rw [length_first] at hlen
      exact hpos hmax (BitVec.eq_of_toNat_eq hlen)
    have hle := h.sound.published_le
    have hfree : a.claimed.length + (c.first n).length < a.consumed.length + 2 ^ k := by
      rw [length_first]
      omega
    have hstep := Reservation.Step.claim i hrole hsome hfree
    have haccess : access s.ring (s.pc i) =
        ({ s.ring with prod_head := BitVec.ofNat 32 (s.seen i) + n },
          .writeEntry c (BitVec.ofNat 32 (s.seen i)) (BitVec.ofNat 32 room) n 0, none) := by
      simp only [hpc, access, hsame, if_true]
    refine ⟨_, h.of_access hk haccess (h.sound.step hstep) (h.sound.grows hstep)
      (fun j hj => Function.update_of_ne hj ..) ?_ h.run_none none_honest ?_⟩
    · refine ⟨h.ring.size, h.ring.mask, h.ring.slots, ?_, h.ring.prod_tail, h.ring.cons_head,
        h.ring.cons_tail⟩
      simp only [List.length_append, length_first, hhead, BitVec.ofNat_add, BitVec.ofNat_toNat,
        BitVec.setWidth_eq]
    · simp only [Function.update_self, hhead]
      have hge := h.sound.reserved_ge
      have hle' := h.sound.reserved_le
      exact .writeEntry hn (by omega) (Nat.zero_le _)
  · -- another thread was faster
    have haccess : access s.ring (s.pc i) = (s.ring, .loadProdHead c, none) := by
      simp only [hpc, access, hsame, if_false]
    refine ⟨a, h.load hk haccess ?_⟩
    rw [hrole]
    exact .loadProdHead hmax

/-- One entry is written, or the loop over the entries is over. -/
theorem Simulates.writeEntry (h : Simulates k s a) (hk : k ≤ 31) {c : Enqueue α}
    {start room done : Nat} {n : BitVec 32}
    (hpc : s.pc i = .writeEntry c (BitVec.ofNat 32 start) (BitVec.ofNat 32 room) n done)
    (hrole : a.role i = .put start (c.first n) done)
    (hn : burst c.behavior c.max (BitVec.ofNat 32 room) (-ENOBUFS) = .ok n)
    (hsize : n.toNat < 2 ^ k) (hdone : done ≤ n.toNat) : ∃ a', Simulates k (s.accessed i) a' := by
  have hptrs : ENQUEUE_PTRS s.ring (BitVec.ofNat 32 start) n =
      (List.range n.toNat).map fun i => ((start + i) % 2 ^ k, i) :=
    ptrs_eq hk h.ring.size h.ring.mask rfl hsize
  by_cases hmore : done < n.toNat
  · have hslot : (ENQUEUE_PTRS s.ring (BitVec.ofNat 32 start) n)[done]? =
        some ((start + done) % 2 ^ k, done) := by
      rw [hptrs, List.getElem?_map, List.getElem?_range hmore, Option.map_some]
    have hitem : (c.first n)[done]? = some (c.obj_table done) := by
      rw [Enqueue.first, List.getElem?_map, List.getElem?_range hmore, Option.map_some]
    have hstep : Reservation.Step (2 ^ k) a _ := .fill i hrole hitem
    have haccess : access s.ring (s.pc i) =
        ({ s.ring with
            ring := Function.update s.ring.ring ((start + done) % 2 ^ k) (c.obj_table done) },
          .writeEntry c (BitVec.ofNat 32 start) (BitVec.ofNat 32 room) n (done + 1), none) := by
      simp only [hpc, access, hslot]
    refine ⟨_, h.of_access hk haccess (h.sound.step hstep) (h.sound.grows hstep)
      (fun j hj => Function.update_of_ne hj ..) ?_ h.run_none none_honest ?_⟩
    · refine ⟨h.ring.size, h.ring.mask, ?_, h.ring.prod_head, h.ring.prod_tail, h.ring.cons_head,
        h.ring.cons_tail⟩
      rw [h.ring.slots]
    · simp only [Function.update_self]
      exact .writeEntry hn hsize hmore
  · obtain rfl : done = n.toNat := by omega
    have hover : (ENQUEUE_PTRS s.ring (BitVec.ofNat 32 start) n)[n.toNat]? = none := by
      rw [hptrs, List.getElem?_eq_none (by simp)]
    have hpow : 2 ^ k ≤ 2 ^ 31 := Nat.pow_le_pow_right (by omega) hk
    have haccess : access s.ring (s.pc i) = (s.ring, .awaitProdTail c (BitVec.ofNat 32 start) n
        (enqueueRet s.ring c.behavior (BitVec.ofNat 32 room) n), none) := by
      simp only [hpc, access, hover]
    refine ⟨a, h.load hk haccess ?_⟩
    rw [hrole]
    exact .awaitProdTail (enqueue_honest hn (by omega))

theorem Simulates.awaitProdTail (h : Simulates k s a) (hk : k ≤ 31) {c : Enqueue α} {start : Nat}
    {n ret : BitVec 32} (hpc : s.pc i = .awaitProdTail c (BitVec.ofNat 32 start) n ret)
    (hrole : a.role i = .put start (c.first n) n.toNat)
    (hret : Return.Honest ⟨.enqueue c, c.first n, ret⟩) : Simulates k (s.accessed i) a := by
  by_cases hturn : s.ring.prod_tail = BitVec.ofNat 32 start
  · have haccess : access s.ring (s.pc i) =
        (s.ring, .storeProdTail c (BitVec.ofNat 32 start) n ret, none) := by
      simp only [hpc, access, hturn, if_true]
    -- the claim is not far ahead of what is published
    have hpow : 2 ^ k ≤ 2 ^ 31 := Nat.pow_le_pow_right (by omega) hk
    have hput := h.sound.puts i _ _ _ hrole
    have hpending := hput.pending
    have hfits := hput.fits
    have hroom := h.sound.room
    have hge := h.sound.reserved_ge
    have hle := h.sound.reserved_le
    rw [h.ring.prod_tail] at hturn
    have hstart := eq_of_ofNat_eq hpending (by omega) hturn.symm
    apply h.load hk haccess
    rw [hrole]
    exact .storeProdTail hret (Nat.le_of_eq hstart)
  · have haccess : access s.ring (s.pc i) =
        (s.ring, .awaitProdTail c (BitVec.ofNat 32 start) n ret, none) := by
      simp only [hpc, access, hturn, if_false]
    apply h.load hk haccess
    rw [hrole]
    exact .awaitProdTail hret

theorem Simulates.storeProdTail (h : Simulates k s a) (hk : k ≤ 31) {c : Enqueue α} {start : Nat}
    {n ret : BitVec 32} (hpc : s.pc i = .storeProdTail c (BitVec.ofNat 32 start) n ret)
    (hrole : a.role i = .put start (c.first n) n.toNat)
    (hret : Return.Honest ⟨.enqueue c, c.first n, ret⟩) (hturn : start ≤ a.published.length) :
    ∃ a', Simulates k (s.accessed i) a' := by
  have hput := h.sound.puts i _ _ _ hrole
  have hstart : start = a.published.length := Nat.le_antisymm hturn hput.pending
  rw [← length_first c n] at hrole
  have hstep : Reservation.Step (2 ^ k) a _ := .publish i hrole hstart
  have haccess : access s.ring (s.pc i) =
      ({ s.ring with prod_tail := BitVec.ofNat 32 start + n }, .idle,
        some ⟨.enqueue c, c.first n, ret⟩) := by
    simp only [hpc, access, Enqueue.first]
  refine ⟨_, h.of_access hk haccess (h.sound.step hstep) (h.sound.grows hstep)
    (fun j hj => Function.update_of_ne hj ..) ?_ ?_ ?_ ?_⟩
  · refine ⟨h.ring.size, h.ring.mask, h.ring.slots, h.ring.prod_head, ?_, h.ring.cons_head,
      h.ring.cons_tail⟩
    simp only [List.length_append, length_first, hstart, BitVec.ofNat_add, BitVec.ofNat_toNat,
      BitVec.setWidth_eq]
  · exact h.sound.contents_publish hrole hstart h.run
  · rintro x ⟨⟩
    exact hret
  · simp only [Function.update_self]
    exact .idle

theorem Simulates.loadProdTail (h : Simulates k s a) (hk : k ≤ 31) {c : Dequeue}
    (hpc : s.pc i = .loadProdTail c (BitVec.ofNat 32 (s.seen i))) (hrole : a.role i = .idle)
    (hmax : c.max ≠ 0) (hseen : s.seen i ≤ a.reserved) (hroom : s.seen i ≤ a.published.length) :
    Simulates k (s.accessed i) a := by
  have hloaded : s.loaded i = s.seen i := by simp only [Threads.loaded, hpc]
  have hentries : s.ring.prod_tail - BitVec.ofNat 32 (s.seen i) =
      BitVec.ofNat 32 (a.published.length - s.seen i) := by
    rw [h.ring.prod_tail, ofNat_sub_ofNat hroom]
  cases hburst : burst c.behavior c.max (BitVec.ofNat 32 (a.published.length - s.seen i))
      (-ENOENT) with
  | error ret =>
    exact h.fail hk (by simp only [hpc, access, hentries, hburst]) rfl hrole
      (dequeue_failed_honest hburst)
  | ok n =>
    have haccess : access s.ring (s.pc i) =
        (s.ring, .moveConsHead c (BitVec.ofNat 32 (s.seen i)) n, none) := by
      simp only [hpc, access, hentries, hburst]
    apply h.load hk haccess
    rw [hrole, hloaded]
    exact .moveConsHead hmax hburst hseen (by omega)

theorem Simulates.moveConsHead (h : Simulates k s a) (hk : k ≤ 31) {c : Dequeue} {room : Nat}
    {n : BitVec 32} (hpc : s.pc i = .moveConsHead c (BitVec.ofNat 32 (s.seen i)) n)
    (hrole : a.role i = .idle) (hmax : c.max ≠ 0)
    (hn : burst c.behavior c.max (BitVec.ofNat 32 room) (-ENOENT) = .ok n)
    (hseen : s.seen i ≤ a.reserved) (hroom : s.seen i + room ≤ a.published.length)
    (htimely : s.consMoved < s.seen i + 2 ^ 32) : ∃ a', Simulates k (s.accessed i) a' := by
  by_cases hsame : s.ring.cons_head = BitVec.ofNat 32 (s.seen i)
  · have hhead : a.reserved = s.seen i := by
      rw [h.ring.cons_head] at hsame
      rw [h.consMoved] at htimely
      exact eq_of_ofNat_eq hseen htimely hsame
    obtain ⟨hfits, -, -, hpos⟩ := burst_ok hn
    have hn' : n.toNat ≤ room := by
      rw [BitVec.toNat_ofNat] at hfits
      exact Nat.le_trans hfits (Nat.mod_le _ _)
    have hsome : 0 < n.toNat := by
      apply Nat.pos_of_ne_zero
      intro hzero
      exact hpos hmax (BitVec.eq_of_toNat_eq hzero)
    have hstep : Reservation.Step (2 ^ k) a _ := .reserve i hrole hsome (by omega)
    have haccess : access s.ring (s.pc i) =
        ({ s.ring with cons_head := BitVec.ofNat 32 (s.seen i) + n },
          .readEntry c (BitVec.ofNat 32 (s.seen i)) n [], none) := by
      simp only [hpc, access, hsame, if_true]
    refine ⟨_, h.of_access hk haccess (h.sound.step hstep) (h.sound.grows hstep)
      (fun j hj => Function.update_of_ne hj ..) ?_ h.run_none none_honest ?_⟩
    · refine ⟨h.ring.size, h.ring.mask, h.ring.slots, h.ring.prod_head, h.ring.prod_tail, ?_,
        h.ring.cons_tail⟩
      simp only [hhead, BitVec.ofNat_add, BitVec.ofNat_toNat, BitVec.setWidth_eq]
    · simp only [Function.update_self, hhead]
      exact .readEntry fun objs hobjs => dequeue_honest hn hobjs
  · have haccess : access s.ring (s.pc i) = (s.ring, .loadConsHead c, none) := by
      simp only [hpc, access, hsame, if_false]
    refine ⟨a, h.load hk haccess ?_⟩
    rw [hrole]
    exact .loadConsHead hmax

theorem Simulates.readEntry (h : Simulates k s a) (hk : k ≤ 31) {c : Dequeue} {start : Nat}
    {n : BitVec 32} {obj_table : List α}
    (hpc : s.pc i = .readEntry c (BitVec.ofNat 32 start) n obj_table)
    (hrole : a.role i = .get start n.toNat obj_table)
    (hret : ∀ objs : List α, objs.length = n.toNat →
      Return.Honest ⟨.dequeue c, objs, dequeueRet c.behavior n⟩) :
    ∃ a', Simulates k (s.accessed i) a' := by
  have hget := h.sound.gets i _ _ _ hrole
  have hlength := hget.length
  have hsize : n.toNat < 2 ^ k := by
    have hpending := hget.pending
    have hfits := hget.fits
    have hreserved := h.sound.reserved_le
    have hpublished := h.sound.published_le
    have hroom := h.sound.room
    omega
  have hptrs : DEQUEUE_PTRS s.ring (BitVec.ofNat 32 start) n =
      (List.range n.toNat).map fun i => ((start + i) % 2 ^ k, i) :=
    ptrs_eq hk h.ring.size h.ring.mask rfl hsize
  by_cases hmore : obj_table.length < n.toNat
  · have hslot : (DEQUEUE_PTRS s.ring (BitVec.ofNat 32 start) n)[obj_table.length]? =
        some ((start + obj_table.length) % 2 ^ k, obj_table.length) := by
      rw [hptrs, List.getElem?_map, List.getElem?_range hmore, Option.map_some]
    have hstep : Reservation.Step (2 ^ k) a _ := .read i hrole hmore
    have haccess : access s.ring (s.pc i) = (s.ring, .readEntry c (BitVec.ofNat 32 start) n
        (obj_table ++ [a.slots ((start + obj_table.length) % 2 ^ k)]), none) := by
      simp only [hpc, access, hslot, h.ring.slots]
    refine ⟨_, h.of_access hk haccess (h.sound.step hstep) (h.sound.grows hstep)
      (fun j hj => Function.update_of_ne hj ..) ?_ h.run_none none_honest ?_⟩
    · exact ⟨h.ring.size, h.ring.mask, h.ring.slots, h.ring.prod_head, h.ring.prod_tail,
        h.ring.cons_head, h.ring.cons_tail⟩
    · simp only [Function.update_self]
      exact .readEntry hret
  · have hall : obj_table.length = n.toNat := by omega
    have hover : (DEQUEUE_PTRS s.ring (BitVec.ofNat 32 start) n)[obj_table.length]? = none := by
      rw [hptrs, List.getElem?_eq_none (by simp [hall])]
    have haccess : access s.ring (s.pc i) =
        (s.ring, .awaitConsTail c (BitVec.ofNat 32 start) n obj_table, none) := by
      simp only [hpc, access, hover]
    refine ⟨a, h.load hk haccess ?_⟩
    rw [hrole]
    exact .awaitConsTail (hret _ hall) hall

theorem Simulates.awaitConsTail (h : Simulates k s a) (hk : k ≤ 31) {c : Dequeue} {start : Nat}
    {n : BitVec 32} {obj_table : List α}
    (hpc : s.pc i = .awaitConsTail c (BitVec.ofNat 32 start) n obj_table)
    (hrole : a.role i = .get start n.toNat obj_table)
    (hret : Return.Honest ⟨.dequeue c, obj_table, dequeueRet c.behavior n⟩)
    (hall : obj_table.length = n.toNat) : Simulates k (s.accessed i) a := by
  by_cases hturn : s.ring.cons_tail = BitVec.ofNat 32 start
  · have haccess : access s.ring (s.pc i) =
        (s.ring, .storeConsTail c (BitVec.ofNat 32 start) n obj_table, none) := by
      simp only [hpc, access, hturn, if_true]
    -- the reservation is not far ahead of what is released
    have hpow : 2 ^ k ≤ 2 ^ 31 := Nat.pow_le_pow_right (by omega) hk
    have hget := h.sound.gets i _ _ _ hrole
    have hpending := hget.pending
    have hfits := hget.fits
    have hroom := h.sound.room
    have hle := h.sound.reserved_le
    have hpublished := h.sound.published_le
    rw [h.ring.cons_tail] at hturn
    have hstart := eq_of_ofNat_eq hpending (by omega) hturn.symm
    apply h.load hk haccess
    rw [hrole]
    exact .storeConsTail hret hall (Nat.le_of_eq hstart)
  · have haccess : access s.ring (s.pc i) =
        (s.ring, .awaitConsTail c (BitVec.ofNat 32 start) n obj_table, none) := by
      simp only [hpc, access, hturn, if_false]
    apply h.load hk haccess
    rw [hrole]
    exact .awaitConsTail hret hall

theorem Simulates.storeConsTail (h : Simulates k s a) (hk : k ≤ 31) {c : Dequeue} {start : Nat}
    {n : BitVec 32} {obj_table : List α}
    (hpc : s.pc i = .storeConsTail c (BitVec.ofNat 32 start) n obj_table)
    (hrole : a.role i = .get start n.toNat obj_table)
    (hret : Return.Honest ⟨.dequeue c, obj_table, dequeueRet c.behavior n⟩)
    (hall : obj_table.length = n.toNat) (hturn : start ≤ a.consumed.length) :
    ∃ a', Simulates k (s.accessed i) a' := by
  have hget := h.sound.gets i _ _ _ hrole
  have hstart : start = a.consumed.length := Nat.le_antisymm hturn hget.pending
  have hstep : Reservation.Step (2 ^ k) a _ := .release i hrole hall hstart
  have haccess : access s.ring (s.pc i) =
      ({ s.ring with cons_tail := BitVec.ofNat 32 start + n }, .idle,
        some ⟨.dequeue c, obj_table, dequeueRet c.behavior n⟩) := by
    simp only [hpc, access]
  refine ⟨_, h.of_access hk haccess (h.sound.step hstep) (h.sound.grows hstep)
    (fun j hj => Function.update_of_ne hj ..) ?_ ?_ ?_ ?_⟩
  · refine ⟨h.ring.size, h.ring.mask, h.ring.slots, h.ring.prod_head, h.ring.prod_tail,
      h.ring.cons_head, ?_⟩
    simp only [List.length_append, hall, hstart, BitVec.ofNat_add, BitVec.ofNat_toNat,
      BitVec.setWidth_eq]
  · exact h.sound.contents_release hrole hall hstart h.run
  · rintro x ⟨⟩
    exact hret
  · simp only [Function.update_self]
    exact .idle

/-- **Step lemma**: every access of a thread is a step of the queue by
    reservation or none. -/
theorem Simulates.access (h : Simulates k s a) (hk : k ≤ 31) (htimely : Timely s (.access i)) :
    ∃ a', Simulates k (s.accessed i) a' := by
  have hi := h.follows i
  simp only [Timely] at htimely
  generalize hpc : s.pc i = pc at hi htimely
  generalize hrole : a.role i = role at hi
  have hroom := h.sound.room
  have hle := h.sound.reserved_le
  cases hi with
  | idle =>
    have haccess : Dpdk.access s.ring (s.pc i) = (s.ring, .idle, none) := by
      simp only [hpc, Dpdk.access]
    refine ⟨a, h.load hk haccess ?_⟩
    rw [hrole]
    exact .idle
  | @loadProdHead c hmax =>
    have haccess : Dpdk.access s.ring (s.pc i) =
        (s.ring, .loadConsTail c (BitVec.ofNat 32 a.claimed.length), none) := by
      simp only [hpc, Dpdk.access, h.ring.prod_head]
    refine ⟨a, h.load hk haccess ?_⟩
    simp only [hrole, Threads.loaded, hpc, h.prodMoved]
    exact .loadConsTail hmax (Nat.le_refl _) hroom
  | loadConsTail hmax hseen hroom => exact ⟨a, h.loadConsTail hk hpc hrole hmax hseen hroom⟩
  | moveProdHead hmax hn hseen hroom =>
    exact h.moveProdHead hk hpc hrole hmax hn hseen hroom htimely
  | writeEntry hn hsize hdone => exact h.writeEntry hk hpc hrole hn hsize hdone
  | awaitProdTail hret => exact ⟨a, h.awaitProdTail hk hpc hrole hret⟩
  | storeProdTail hret hturn => exact h.storeProdTail hk hpc hrole hret hturn
  | @loadConsHead c hmax =>
    have haccess : Dpdk.access s.ring (s.pc i) =
        (s.ring, .loadProdTail c (BitVec.ofNat 32 a.reserved), none) := by
      simp only [hpc, Dpdk.access, h.ring.cons_head]
    refine ⟨a, h.load hk haccess ?_⟩
    simp only [hrole, Threads.loaded, hpc, h.consMoved]
    exact .loadProdTail hmax (Nat.le_refl _) hle
  | loadProdTail hmax hseen hroom => exact ⟨a, h.loadProdTail hk hpc hrole hmax hseen hroom⟩
  | moveConsHead hmax hn hseen hroom =>
    exact h.moveConsHead hk hpc hrole hmax hn hseen hroom htimely
  | readEntry hret => exact h.readEntry hk hpc hrole hret
  | awaitConsTail hret hall => exact ⟨a, h.awaitConsTail hk hpc hrole hret hall⟩
  | storeConsTail hret hall hturn => exact h.storeConsTail hk hpc hrole hret hall hturn

theorem Simulates.call (h : Simulates k s a) (hidle : s.pc i = .idle) {c : Call α}
    (hmax : c.max ≠ 0) :
    Simulates k { s with pc := Function.update s.pc i c.start } a := by
  refine ⟨h.sound, h.ring, h.prodMoved, h.consMoved, h.run, h.honest, ?_⟩
  intro j
  by_cases hj : j = i
  · subst hj
    have hi := h.follows j
    rw [hidle] at hi
    generalize hrole : a.role j = role at hi
    simp only [Function.update_self]
    cases hi with
    | idle =>
      cases c with
      | enqueue c => exact .loadProdHead hmax
      | dequeue c => exact .loadConsHead hmax
  · simp only [Function.update_of_ne hj]
    exact h.follows j

omit [DecidableEq ι] in
theorem Simulates.set_water_mark (h : Simulates k s a) (count : BitVec 32) :
    Simulates k { s with ring := (rte_ring_set_water_mark s.ring count).2 } a := by
  refine ⟨h.sound, ?_, h.prodMoved, h.consMoved, h.run, h.honest, h.follows⟩
  simp only [rte_ring_set_water_mark]
  split
  · exact h.ring
  · exact ⟨h.ring.size, h.ring.mask, h.ring.slots, h.ring.prod_head, h.ring.prod_tail,
      h.ring.cons_head, h.ring.cons_tail⟩

end steps

/-! ## Section 3: Runs -/

theorem init_simulates {count : BitVec 32} {memory : Nat → α} {k : Nat}
    (hsize : count.toNat = 2 ^ k) :
    Simulates k (⟨rte_ring_init count memory, fun _ => .idle, [], 0, 0, fun _ => 0⟩ : Threads ι α)
      (State.empty memory) where
  sound := empty_sound (Nat.two_pow_pos k) memory
  ring := by
    refine ⟨hsize, ?_, rfl, rfl, rfl, rfl, rfl⟩
    have hpos := Nat.two_pow_pos k
    simp only [rte_ring_init]
    rw [BitVec.toNat_sub_of_le, hsize]
    · rfl
    · exact BitVec.le_def.mpr (by rw [hsize]; exact hpos)
  prodMoved := rfl
  consMoved := rfl
  run := .start
  honest := by simp
  follows _ := .idle

/-- **Run lemma**. -/
theorem reachable_simulates [DecidableEq ι] {count : BitVec 32} {memory : Nat → α} {k : Nat}
    (hk : k ≤ 31) (hsize : count.toNat = 2 ^ k) {s : Threads ι α}
    (h : ReachableWhile (threads (rte_ring_init count memory)) Timely s) :
    ∃ a, Simulates k s a := by
  refine h.invariant (fun s => ∃ a, Simulates k s a) ?_ ?_
  · rintro s rfl
    exact ⟨_, init_simulates hsize⟩
  · rintro s action s' ⟨a, ha⟩ htimely hstep
    cases action with
    | call i c =>
      obtain ⟨hidle, rfl⟩ := hstep
      exact ⟨a, ha.call hidle htimely⟩
    | access i =>
      cases hstep
      exact ha.access hk htimely
    | set_water_mark count =>
      cases hstep
      exact ⟨a, ha.set_water_mark count⟩

theorem Simulates.contents {k : Nat} {s : Threads ι α} {a : Reservation.State ι α}
    (h : Simulates k s a) (hk : k ≤ 31) : s.ring.contents = a.contents := by
  have hpow : 2 ^ k ≤ 2 ^ 31 := Nat.pow_le_pow_right (by omega) hk
  have hge := h.sound.reserved_ge
  have hle := h.sound.reserved_le
  have hlen := h.run.length_le
  have hpos := Nat.two_pow_pos k
  simp only [State.contents, List.length_drop] at hlen
  have hcount : (rte_ring_count s.ring).toNat = a.published.length - a.consumed.length := by
    rw [rte_ring_count, h.ring.prod_tail, h.ring.cons_tail, ofNat_sub_ofNat (by omega),
      toNat_and_mask (by omega) h.ring.mask, Nat.mod_eq_of_lt (by omega)]
  rw [h.sound.contents_eq, Ring.contents, hcount]
  apply List.map_congr_left
  intro j _
  rw [h.ring.slots, h.ring.size, h.ring.cons_tail, BitVec.toNat_ofNat, Nat.add_mod,
    Nat.mod_mod_of_dvd _ (Nat.pow_dvd_pow 2 (by omega)), ← Nat.add_mod]

/-- **Main**: the calls that have returned are a run of a FIFO queue of
    `count - 1` objects, which leaves what lies between the tails; and every
    return value says what the call has done. -/
theorem ring_is_fifo [DecidableEq ι] {count : BitVec 32} {memory : Nat → α} {r : Ring α}
    (hcreate : rte_ring_create count memory = some r) (hcount : count ≠ 0) {s : Threads ι α}
    (h : ReachableWhile (threads r) Timely s) :
    QueueRun (count.toNat - 1) (s.history.map fun x => x.2.event) s.ring.contents ∧
      ∀ x ∈ s.history, x.2.Honest := by
  obtain ⟨rfl, k, hk, hsize⟩ := size_of_create hcreate hcount
  obtain ⟨a, ha⟩ := reachable_simulates hk hsize h
  rw [hsize, ha.contents hk]
  exact ⟨ha.run, ha.honest⟩

theorem reached_call [DecidableEq ι] {r : Ring α} {s : Threads ι α}
    (h : ReachableWhile (threads r) Timely s) (i : ι) (c : Call α) (hidle : s.pc i = .idle)
    (hmax : c.max ≠ 0) :
    ReachableWhile (threads r) Timely { s with pc := Function.update s.pc i c.start } :=
  h.step (a := .call i c) hmax ⟨hidle, rfl⟩

theorem reached_access [DecidableEq ι] {r : Ring α} {s : Threads ι α}
    (h : ReachableWhile (threads r) Timely s) (i : ι) (htimely : Timely s (.access i)) :
    ReachableWhile (threads r) Timely (s.accessed i) :=
  h.step (a := .access i) htimely rfl

/-- One thread puts 7 while another one takes it. -/
theorem ring_is_fifo_two_threads :
    ∃ s : Threads Bool Nat, ReachableWhile (threads (rte_ring_init 4 fun _ => 0)) Timely s ∧
      s.history.map (fun x => x.2.event) = [.put [7], .get [7]] ∧
      QueueRun 3 (s.history.map fun x => x.2.event) s.ring.contents := by
  have hinit : ReachableWhile (threads (rte_ring_init 4 fun _ => 0)) Timely
      (⟨rte_ring_init 4 fun _ => 0, fun _ => .idle, [], 0, 0, fun _ => 0⟩ : Threads Bool Nat) :=
    .init rfl
  have h := reached_call hinit true (.enqueue ⟨fun _ => 7, 1, .RTE_RING_QUEUE_FIXED⟩) rfl
    (by decide)
  replace h := reached_call h false (.dequeue ⟨1, .RTE_RING_QUEUE_FIXED⟩) rfl (by decide)
  -- the consumer loads its head before the producer starts
  replace h := reached_access h false trivial
  replace h := reached_access (reached_access h true trivial) true trivial
  replace h := reached_access h true (show 0 < 0 + 2 ^ 32 by decide)
  replace h := reached_access (reached_access h true trivial) true trivial
  replace h := reached_access (reached_access h true trivial) true trivial
  replace h := reached_access h false trivial
  replace h := reached_access h false (show 0 < 0 + 2 ^ 32 by decide)
  replace h := reached_access (reached_access h false trivial) false trivial
  replace h := reached_access (reached_access h false trivial) false trivial
  have hcreate : rte_ring_create 4 (fun _ => 0) = some (rte_ring_init 4 fun _ => 0) := rfl
  exact ⟨_, h, rfl, (ring_is_fifo hcreate (by decide) h).1⟩

/-! ## Section 4: Refusals -/

/-- The head that a thread has loaded has moved so little that the free entries
    or the entries, as the thread computes them now, do not wrap around. -/
def Threads.Recent (s : Threads ι α) (i : ι) : Prop :=
  match s.pc i with
  | .loadConsTail .. => s.prodMoved + s.ring.size.toNat ≤ s.seen i + 2 ^ 32
  | .loadProdTail .. => s.consMoved + s.ring.size.toNat ≤ s.seen i + 2 ^ 32
  | _ => True

/-- At this moment the ring cannot do what the call asks for. The objects that
    other threads are about to write or read count as being there or gone. -/
def Ring.Refuses (r : Ring α) : Call α → Prop
  | .enqueue c =>
    match c.behavior with
    | .RTE_RING_QUEUE_FIXED => r.mask.toNat < (r.prod_head - r.cons_tail).toNat + c.max.toNat
    | .RTE_RING_QUEUE_VARIABLE => (r.prod_head - r.cons_tail).toNat = r.mask.toNat
  | .dequeue c =>
    match c.behavior with
    | .RTE_RING_QUEUE_FIXED => (r.prod_tail - r.cons_head).toNat < c.max.toNat
    | .RTE_RING_QUEUE_VARIABLE => r.prod_tail = r.cons_head

section refusal
variable {k : Nat} {s : Threads ι α} {a : Reservation.State ι α} {i : ι}

theorem Simulates.used (h : Simulates k s a) (hk : k ≤ 31) :
    (s.ring.prod_head - s.ring.cons_tail).toNat = a.claimed.length - a.consumed.length := by
  have hpow : 2 ^ k ≤ 2 ^ 31 := Nat.pow_le_pow_right (by omega) hk
  have hge := h.sound.reserved_ge
  have hle := h.sound.reserved_le
  have hpublished := h.sound.published_le
  have hroom := h.sound.room
  rw [h.ring.prod_head, h.ring.cons_tail, ofNat_sub_ofNat (by omega), BitVec.toNat_ofNat,
    Nat.mod_eq_of_lt (by omega)]

theorem Simulates.ready (h : Simulates k s a) (hk : k ≤ 31) :
    (s.ring.prod_tail - s.ring.cons_head).toNat = a.published.length - a.reserved := by
  have hpow : 2 ^ k ≤ 2 ^ 31 := Nat.pow_le_pow_right (by omega) hk
  have hge := h.sound.reserved_ge
  have hpublished := h.sound.published_le
  have hroom := h.sound.room
  rw [h.ring.prod_tail, h.ring.cons_head, ofNat_sub_ofNat h.sound.reserved_le,
    BitVec.toNat_ofNat, Nat.mod_eq_of_lt (by omega)]

theorem Simulates.enqueue_refused (h : Simulates k s a) (hk : k ≤ 31) {c : Enqueue α}
    {ret : BitVec 32} (hseen : s.seen i ≤ a.claimed.length)
    (hroom : s.seen i < a.consumed.length + 2 ^ k)
    (hrecent : a.claimed.length + 2 ^ k ≤ s.seen i + 2 ^ 32)
    (hburst : burst c.behavior c.max
      (s.ring.mask + s.ring.cons_tail - BitVec.ofNat 32 (s.seen i)) (-ENOBUFS) = .error ret) :
    s.ring.Refuses (.enqueue c) := by
  have hge := h.sound.reserved_ge
  have hle := h.sound.reserved_le
  have hpublished := h.sound.published_le
  have hclaimed := h.sound.room
  rw [h.free_entries hroom] at hburst
  obtain ⟨hlt, hbehavior⟩ := burst_error hburst
  have hfree : (BitVec.ofNat 32 (2 ^ k - 1 + a.consumed.length - s.seen i)).toNat =
      2 ^ k - 1 + a.consumed.length - s.seen i := by
    rw [BitVec.toNat_ofNat, Nat.mod_eq_of_lt (by omega)]
  rw [hfree] at hlt
  simp only [Ring.Refuses, h.used hk, h.ring.mask]
  rcases hbehavior with ⟨hfixed, -⟩ | ⟨hvariable, -, hzero⟩
  · simp only [hfixed]
    omega
  · have hnone := congrArg BitVec.toNat hzero
    rw [hfree] at hnone
    simp only [hvariable]
    change _ = 0 at hnone
    omega

theorem Simulates.dequeue_refused (h : Simulates k s a) (hk : k ≤ 31) {c : Dequeue}
    {ret : BitVec 32} (hseen : s.seen i ≤ a.reserved) (hroom : s.seen i ≤ a.published.length)
    (hrecent : a.reserved + 2 ^ k ≤ s.seen i + 2 ^ 32)
    (hburst : burst c.behavior c.max (s.ring.prod_tail - BitVec.ofNat 32 (s.seen i)) (-ENOENT) =
      .error ret) : s.ring.Refuses (.dequeue c : Call α) := by
  have hge := h.sound.reserved_ge
  have hle := h.sound.reserved_le
  have hpublished := h.sound.published_le
  have hclaimed := h.sound.room
  rw [h.ring.prod_tail, ofNat_sub_ofNat hroom] at hburst
  obtain ⟨hlt, hbehavior⟩ := burst_error hburst
  have hentries : (BitVec.ofNat 32 (a.published.length - s.seen i)).toNat =
      a.published.length - s.seen i := by
    rw [BitVec.toNat_ofNat, Nat.mod_eq_of_lt (by omega)]
  rw [hentries] at hlt
  simp only [Ring.Refuses, h.ready hk]
  rcases hbehavior with ⟨hfixed, -⟩ | ⟨hvariable, -, hzero⟩
  · simp only [hfixed]
    omega
  · have hnone := congrArg BitVec.toNat hzero
    rw [hentries] at hnone
    change _ = 0 at hnone
    have hequal : a.published.length = a.reserved := by omega
    simp only [hvariable, h.ring.prod_tail, h.ring.cons_head, hequal]

end refusal

/-- The accesses with which a call returns. -/
theorem access_returns {r : Ring α} {pc : Pc α} {x : Return α}
    (h : (access r pc).2.2 = some x) :
    (∃ c head ret, pc = .loadConsTail c head ∧ x = ⟨.enqueue c, [], ret⟩ ∧
      burst c.behavior c.max (r.mask + r.cons_tail - head) (-ENOBUFS) = .error ret) ∨
    (∃ c head ret, pc = .loadProdTail c head ∧ x = ⟨.dequeue c, [], ret⟩ ∧
      burst c.behavior c.max (r.prod_tail - head) (-ENOENT) = .error ret) ∨
    (∃ c head n ret, pc = .storeProdTail c head n ret ∧ x = ⟨.enqueue c, c.first n, ret⟩) ∨
    ∃ c head n objs, pc = .storeConsTail c head n objs ∧
      x = ⟨.dequeue c, objs, dequeueRet c.behavior n⟩ := by
  cases pc with
  | loadConsTail c head =>
    simp only [access] at h
    cases hburst : burst c.behavior c.max (r.mask + r.cons_tail - head) (-ENOBUFS) with
    | error ret =>
      rw [hburst] at h
      exact Or.inl ⟨c, head, ret, rfl, (Option.some.inj h).symm, hburst⟩
    | ok n =>
      rw [hburst] at h
      cases h
  | loadProdTail c head =>
    simp only [access] at h
    cases hburst : burst c.behavior c.max (r.prod_tail - head) (-ENOENT) with
    | error ret =>
      rw [hburst] at h
      exact Or.inr (Or.inl ⟨c, head, ret, rfl, (Option.some.inj h).symm, hburst⟩)
    | ok n =>
      rw [hburst] at h
      cases h
  | storeProdTail c head n ret =>
    exact Or.inr (Or.inr (Or.inl ⟨c, head, n, ret, rfl, (Option.some.inj h).symm⟩))
  | storeConsTail c head n objs =>
    exact Or.inr (Or.inr (Or.inr ⟨c, head, n, objs, rfl, (Option.some.inj h).symm⟩))
  | moveProdHead | writeEntry | awaitProdTail | moveConsHead | readEntry | awaitConsTail =>
    simp only [access] at h
    split at h <;> cases h
  | idle | loadProdHead | loadConsHead => cases h

/-- **Main**: a call that moves nothing could not have: when it loaded the tail
    of the other side, the ring was too full or had too few objects. -/
theorem ring_refuses_rightly [DecidableEq ι] {count : BitVec 32} {memory : Nat → α} {r : Ring α}
    (hcreate : rte_ring_create count memory = some r) (hcount : count ≠ 0) {s : Threads ι α}
    (h : ReachableWhile (threads r) Timely s) {i : ι} (hrecent : s.Recent i) {x : Return α}
    (hret : (access s.ring (s.pc i)).2.2 = some x) (hobjs : x.objs = []) :
    s.ring.Refuses x.call := by
  obtain ⟨rfl, k, hk, hsize⟩ := size_of_create hcreate hcount
  obtain ⟨a, ha⟩ := reachable_simulates hk hsize h
  have hi := ha.follows i
  generalize hrole : a.role i = role at hi
  simp only [Threads.Recent, ha.prodMoved, ha.consMoved, ha.ring.size] at hrecent
  rcases access_returns hret with ⟨c, head, ret, hpc, rfl, hburst⟩ |
    ⟨c, head, ret, hpc, rfl, hburst⟩ | ⟨c, head, n, ret, hpc, rfl⟩ | ⟨c, head, n, objs, hpc, rfl⟩
    <;> rw [hpc] at hi hrecent
  · cases hi with
    | loadConsTail hmax hseen hroom => exact ha.enqueue_refused hk hseen hroom hrecent hburst
  · cases hi with
    | loadProdTail hmax hseen hroom => exact ha.dequeue_refused hk hseen hroom hrecent hburst
  · -- a call that stores a tail has moved something
    cases hi with
    | storeProdTail _ _ => exact absurd hobjs (ha.sound.puts i _ _ _ hrole).nonempty
  · cases hi with
    | storeConsTail _ hall _ =>
      have hsome := (ha.sound.gets i _ _ _ hrole).nonempty
      have hlen := congrArg List.length hobjs
      simp only [List.length_nil] at hlen
      omega

/-- A dequeue from the empty ring is refused. -/
theorem ring_refuses_rightly_empty :
    (rte_ring_init 4 (fun _ => 0)).Refuses (.dequeue ⟨1, .RTE_RING_QUEUE_FIXED⟩ : Call Nat) := by
  have hinit : ReachableWhile (threads (rte_ring_init 4 fun _ => 0)) Timely
      (⟨rte_ring_init 4 fun _ => 0, fun _ => .idle, [], 0, 0, fun _ => 0⟩ : Threads Bool Nat) :=
    .init rfl
  have h := reached_call hinit false (.dequeue ⟨1, .RTE_RING_QUEUE_FIXED⟩) rfl (by decide)
  replace h := reached_access h false trivial
  have hcreate : rte_ring_create 4 (fun _ => 0) = some (rte_ring_init 4 fun _ => 0) := rfl
  exact ring_refuses_rightly (i := false) hcreate (by decide) h
    (show 0 + 4 ≤ 0 + 2 ^ 32 by decide) rfl rfl

end PacketPro.Dpdk
