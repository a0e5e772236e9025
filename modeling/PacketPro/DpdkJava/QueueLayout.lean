import PacketPro.DpdkJava.StartUp

/-! # `ApplicationStarter.java`: Queues of a Port

    An application asks for a number of receive and of transmit queues on a
    port and then sets the queues up one by one. The counts pass through the
    starter, the JNI wrapper and the native function to DPDK, whose prototypes
    take the port as a `uint8_t` and counts and queue numbers as `uint16_t`.

    The starter hands the number of receive queues on twice. What the port has
    got shows only when the transmit queues are set up:
    `layoutStarts_iff` says which layouts start.
-/

namespace PacketPro.DpdkJava

/-! ## Section 1: The devices behind DPDK -/

inductive Direction where
  | rx
  | tx
  deriving DecidableEq, Repr

/-- The queues of a port: how many it was configured with, and which of them
    were set up since. -/
structure EthPort where
  nb_queues : Direction → Nat
  set_up : Direction → Finset Nat

abbrev EthDevices : Type := BitVec 8 → EthPort

namespace EthDevices

def EINVAL : Int := 22

/-- Gives the port the queues asked for, none of them set up. -/
def rte_eth_dev_configure (d : EthDevices) (port_id : BitVec 8) (nb_rx_q nb_tx_q : BitVec 16) :
    Int × EthDevices :=
  (0, Function.update d port_id
    { nb_queues := fun | .rx => nb_rx_q.toNat | .tx => nb_tx_q.toNat
      set_up := fun _ => ∅ })

/-- Fails exactly for the queues that the port does not have. -/
def queue_setup (d : EthDevices) (dir : Direction) (port_id : BitVec 8) (queue_id : BitVec 16) :
    Int × EthDevices :=
  if queue_id.toNat < (d port_id).nb_queues dir then
    (0, Function.update d port_id { d port_id with
      set_up := Function.update (d port_id).set_up dir
        (insert queue_id.toNat ((d port_id).set_up dir)) })
  else
    (-EINVAL, d)

def rte_eth_rx_queue_setup (d : EthDevices) := d.queue_setup .rx
def rte_eth_tx_queue_setup (d : EthDevices) := d.queue_setup .tx

end EthDevices

/-! ## Section 2: The calls of an application -/

/-- The starter with the devices that its calls configure. -/
structure Configuring (ρ : Type) where
  starter : ApplicationStarter ρ
  devices : EthDevices

namespace Configuring

variable {ρ : Type}

/-- The number of receive queues is passed on twice. -/
def dpdk_configure_dev (port_id rx_num _tx_num : JInt) (s : Configuring ρ) : Configuring ρ :=
  let (ret, devices) := s.devices.rte_eth_dev_configure (port_id.setWidth 8) (rx_num.setWidth 16)
    (rx_num.setWidth 16)
  ⟨s.starter.record (nativeResult ret), devices⟩

def dpdk_configure_queue (dir : Direction) (port_id queue_id : JInt) (s : Configuring ρ) :
    Configuring ρ :=
  let (ret, devices) := s.devices.queue_setup dir (port_id.setWidth 8) (queue_id.setWidth 16)
  ⟨s.starter.record (nativeResult ret), devices⟩

def dpdk_configure_rx_queue (port_id rx_id : JInt) (s : Configuring ρ) : Configuring ρ :=
  s.dpdk_configure_queue .rx port_id rx_id

def dpdk_configure_tx_queue (port_id tx_id : JInt) (s : Configuring ρ) : Configuring ρ :=
  s.dpdk_configure_queue .tx port_id tx_id

/-- Set up the queues `0 .. count - 1`. -/
def configureQueues (dir : Direction) (port_id : JInt) (count : Nat) (s : Configuring ρ) :
    Configuring ρ :=
  (List.range count).foldl (fun s i => s.dpdk_configure_queue dir port_id (BitVec.ofNat 32 i)) s

/-- Configure a port, then its receive queues, then its transmit queues. -/
def configureLayout (port_id rx_num tx_num : JInt) (s : Configuring ρ) : Configuring ρ :=
  ((s.dpdk_configure_dev port_id rx_num tx_num).configureQueues .rx port_id
    rx_num.toNat).configureQueues .tx port_id tx_num.toNat

/-- No call has failed, and the port has `tx_num` transmit queues, all of them
    set up. -/
structure LayoutStarts (port_id rx_num tx_num : JInt) (s : Configuring ρ) : Prop where
  working : (s.configureLayout port_id rx_num tx_num).starter.working = true
  count : ((s.configureLayout port_id rx_num tx_num).devices (port_id.setWidth 8)).nb_queues .tx =
    tx_num.toNat
  set_up : ∀ j < tx_num.toNat,
    j ∈ ((s.configureLayout port_id rx_num tx_num).devices (port_id.setWidth 8)).set_up .tx

/-! The starter's part is that of the start-up calls, with what the devices
    answer as the result of the DPDK function. -/

theorem dpdk_configure_dev_starter (port_id rx_num tx_num : JInt) (s : Configuring ρ) :
    (s.dpdk_configure_dev port_id rx_num tx_num).starter =
      s.starter.dpdk_configure_dev (nat_configure_dev fun p r t =>
        (s.devices.rte_eth_dev_configure (p.setWidth 8) (r.setWidth 16) (t.setWidth 16)).1)
        port_id rx_num tx_num := rfl

theorem dpdk_configure_rx_queue_starter (port_id rx_id : JInt) (s : Configuring ρ) :
    (s.dpdk_configure_rx_queue port_id rx_id).starter =
      s.starter.dpdk_configure_rx_queue (nat_configure_rx_queue fun p i =>
        (s.devices.rte_eth_rx_queue_setup (p.setWidth 8) (i.setWidth 16)).1) port_id rx_id := by
  rw [dpdk_configure_rx_queue, dpdk_configure_queue, ApplicationStarter.dpdk_configure_rx_queue,
    nat_configure_rx_queue]
  rfl

theorem dpdk_configure_tx_queue_starter (port_id tx_id : JInt) (s : Configuring ρ) :
    (s.dpdk_configure_tx_queue port_id tx_id).starter =
      s.starter.dpdk_configure_tx_queue (nat_configure_tx_queue fun p i =>
        (s.devices.rte_eth_tx_queue_setup (p.setWidth 8) (i.setWidth 16)).1) port_id tx_id := by
  rw [dpdk_configure_tx_queue, dpdk_configure_queue, ApplicationStarter.dpdk_configure_tx_queue,
    nat_configure_tx_queue]
  rfl

/-! ## Section 3: Setting up queues -/

theorem record_nativeResult_working (st : ApplicationStarter ρ) (ret : Int) :
    (st.record (nativeResult ret)).working = true ↔ st.working = true ∧ 0 ≤ ret := by
  rw [ApplicationStarter.record_working, Bool.and_eq_true, Bool.not_eq_true',
    decide_eq_false_iff_not]
  unfold nativeResult
  split
  · rename_i h
    refine and_congr_right fun _ => iff_of_false ?_ (by omega)
    decide
  · rename_i h
    refine and_congr_right fun _ => iff_of_true ?_ (by omega)
    decide

/-- What a call for queue `q` does to a port: the flag survives if the port
    has the queue, which is then set up. -/
theorem dpdk_configure_queue_spec (dir : Direction) (port_id queue_id : JInt)
    (s : Configuring ρ) :
    let q := (queue_id.setWidth 16).toNat
    let port := s.devices (port_id.setWidth 8)
    let s' := s.dpdk_configure_queue dir port_id queue_id
    let port' := s'.devices (port_id.setWidth 8)
    (s'.starter.working = true ↔ s.starter.working = true ∧ q < port.nb_queues dir) ∧
    port'.nb_queues = port.nb_queues ∧
    port.set_up dir ⊆ port'.set_up dir ∧
    (q < port.nb_queues dir → q ∈ port'.set_up dir) := by
  intro q port s' port'
  by_cases hq : q < port.nb_queues dir
  · have hcall : s.devices.queue_setup dir (port_id.setWidth 8) (queue_id.setWidth 16) =
        (0, Function.update s.devices (port_id.setWidth 8) { port with
          set_up := Function.update port.set_up dir (insert q (port.set_up dir)) }) := if_pos hq
    have hport : port' = { port with
        set_up := Function.update port.set_up dir (insert q (port.set_up dir)) } := by
      simp only [port', s', dpdk_configure_queue, hcall, Function.update_self]
    have hflag : s'.starter = s.starter.record (nativeResult 0) := by
      simp only [s', dpdk_configure_queue, hcall]
    rw [hflag, record_nativeResult_working, hport]
    simp only [Function.update_self, Finset.subset_insert, Finset.mem_insert_self, hq,
      Int.le_refl, and_self, implies_true]
  · have hcall : s.devices.queue_setup dir (port_id.setWidth 8) (queue_id.setWidth 16) =
        (-EthDevices.EINVAL, s.devices) := if_neg hq
    have hport : port' = port := by
      simp only [port', s', dpdk_configure_queue, hcall, port]
    have hflag : s'.starter = s.starter.record (nativeResult (-EthDevices.EINVAL)) := by
      simp only [s', dpdk_configure_queue, hcall]
    rw [hflag, record_nativeResult_working, hport]
    refine ⟨?_, rfl, Finset.Subset.refl _, fun h => absurd h hq⟩
    exact and_congr_right fun _ => iff_of_false (by decide) hq

/-- Queue numbers are 16 bits wide. -/
theorem queue_id_toNat (i : Nat) : ((BitVec.ofNat 32 i).setWidth 16).toNat = i % 2 ^ 16 := by
  rw [BitVec.toNat_setWidth, BitVec.toNat_ofNat]
  omega

/-- **Run lemma**: the flag survives a loop over the queues exactly when the
    port has all of them. -/
theorem configureQueues_spec (dir : Direction) (port_id : JInt) (count : Nat)
    (s : Configuring ρ) :
    let port := s.devices (port_id.setWidth 8)
    let s' := s.configureQueues dir port_id count
    let port' := s'.devices (port_id.setWidth 8)
    (s'.starter.working = true ↔
      s.starter.working = true ∧ ∀ i < count, i % 2 ^ 16 < port.nb_queues dir) ∧
    port'.nb_queues = port.nb_queues ∧
    ∀ i < count, i % 2 ^ 16 < port.nb_queues dir → i % 2 ^ 16 ∈ port'.set_up dir := by
  intro port
  induction count with
  | zero => simp [configureQueues, port]
  | succ count ih =>
    have hlast : s.configureQueues dir port_id (count + 1) =
        (s.configureQueues dir port_id count).dpdk_configure_queue dir port_id
          (BitVec.ofNat 32 count) := by
      rw [configureQueues, List.range_succ, List.foldl_append]
      rfl
    obtain ⟨hworking, hcounts, hset⟩ := ih
    obtain ⟨hworking', hcounts', hsub, hself⟩ := dpdk_configure_queue_spec dir port_id
      (BitVec.ofNat 32 count) (s.configureQueues dir port_id count)
    rw [queue_id_toNat] at hworking' hself
    intro s' port'
    simp only [s', port', hlast]
    refine ⟨?_, hcounts'.trans hcounts, ?_⟩
    · rw [hworking', hworking, hcounts, and_assoc, Nat.forall_lt_succ_right]
    · intro i hi hqueue
      rcases Nat.lt_succ_iff_lt_or_eq.mp hi with hlt | rfl
      · exact hsub (hset i hlt hqueue)
      · exact hself (by rwa [hcounts])

/-! ## Section 4: Which layouts start -/

theorem configureLayout_spec (port_id rx_num tx_num : JInt) (s : Configuring ρ)
    (hworking : s.starter.working = true) :
    let s' := s.configureLayout port_id rx_num tx_num
    let port' := s'.devices (port_id.setWidth 8)
    let n := rx_num.toNat % 2 ^ 16
    (s'.starter.working = true ↔
      (∀ i < rx_num.toNat, i % 2 ^ 16 < n) ∧ ∀ j < tx_num.toNat, j % 2 ^ 16 < n) ∧
    port'.nb_queues .tx = n ∧
    ∀ j < tx_num.toNat, j % 2 ^ 16 < n → j % 2 ^ 16 ∈ port'.set_up .tx := by
  intro s' port' n
  have hconfigured : (s.dpdk_configure_dev port_id rx_num tx_num).starter.working = true :=
    (record_nativeResult_working s.starter 0).mpr ⟨hworking, Int.le_refl 0⟩
  have hqueues (dir : Direction) : ((s.dpdk_configure_dev port_id rx_num tx_num).devices
      (port_id.setWidth 8)).nb_queues dir = n := by
    have hport : (s.dpdk_configure_dev port_id rx_num tx_num).devices (port_id.setWidth 8) =
        ⟨fun | .rx => (rx_num.setWidth 16).toNat | .tx => (rx_num.setWidth 16).toNat,
          fun _ => ∅⟩ := Function.update_self ..
    rw [hport]
    cases dir <;> exact BitVec.toNat_setWidth 16 rx_num
  obtain ⟨hrx, hrxcounts, -⟩ := configureQueues_spec .rx port_id rx_num.toNat
    (s.dpdk_configure_dev port_id rx_num tx_num)
  obtain ⟨htx, htxcounts, hset⟩ := configureQueues_spec .tx port_id tx_num.toNat
    ((s.dpdk_configure_dev port_id rx_num tx_num).configureQueues .rx port_id rx_num.toNat)
  rw [hrxcounts] at htx htxcounts hset
  refine ⟨?_, ?_, ?_⟩
  · rw [show s'.starter.working = true ↔ _ from htx, hrx, hqueues, hqueues]
    simp only [hconfigured, true_and]
  · rw [show port'.nb_queues = _ from htxcounts]
    exact hqueues .tx
  · intro j hj hqueue
    exact hset j hj (by rwa [hqueues])

/-- **Main**: a layout starts if and only if it asks for equally many receive
    and transmit queues, no more than fit in 16 bits. -/
theorem layoutStarts_iff (port_id rx_num tx_num : JInt) (_hrx : 1 ≤ rx_num.toInt)
    (_htx : 1 ≤ tx_num.toInt) (s : Configuring ρ) (hworking : s.starter.working = true) :
    LayoutStarts port_id rx_num tx_num s ↔ rx_num = tx_num ∧ rx_num.toNat < 2 ^ 16 := by
  obtain ⟨hflag, hcount, hset⟩ := configureLayout_spec port_id rx_num tx_num s hworking
  constructor
  · intro h
    have hn := hcount.symm.trans h.count
    obtain ⟨hrxqueues, -⟩ := hflag.mp h.working
    have hfits : rx_num.toNat < 2 ^ 16 := by
      -- queue 65535 would be asked for, which no port has
      by_contra hbig
      have hlast := hrxqueues 65535 (by omega)
      omega
    rw [Nat.mod_eq_of_lt hfits] at hn
    exact ⟨BitVec.eq_of_toNat_eq hn, hfits⟩
  · rintro ⟨rfl, hfits⟩
    have hn : rx_num.toNat % 2 ^ 16 = rx_num.toNat := Nat.mod_eq_of_lt hfits
    have hall : ∀ i < rx_num.toNat, i % 2 ^ 16 < rx_num.toNat % 2 ^ 16 := by
      intro i hi
      omega
    refine ⟨hflag.mpr ⟨hall, hall⟩, hcount.trans hn, ?_⟩
    intro j hj
    have h := hset j hj (hall j hj)
    rwa [Nat.mod_eq_of_lt (by omega)] at h

/-- A new starter, before any port is configured. -/
def fresh : Configuring Unit := ⟨ApplicationStarter.new 4, fun _ => ⟨fun _ => 0, fun _ => ∅⟩⟩

/-- Two queues each way, as the firewall asks for. -/
theorem layoutStarts_two_two : LayoutStarts 0 2 2 fresh :=
  (layoutStarts_iff 0 2 2 (by decide) (by decide) fresh rfl).mpr ⟨rfl, by decide⟩

/-- One receive and two transmit queues: the second of these does not exist. -/
theorem not_layoutStarts_one_two : ¬ LayoutStarts 0 1 2 fresh := by
  intro h
  have hcount := h.count
  rw [(configureLayout_spec 0 1 2 fresh rfl).2.1] at hcount
  exact absurd hcount (by decide)

end Configuring

end PacketPro.DpdkJava
