import Mathlib.Logic.Function.Basic
import PacketPro.Framework.Transitions
import PacketPro.Jvm.Ipv6Packet

/-! # Packets That Share an `UnsafeAccess`

    A packet object does not own the cursor it reads and writes through: the
    `UnsafeAccess` is handed to its constructor, and a poller hands the same
    one to all its packets. Each call moves the cursor, so the packets could
    disturb each other.

    The objects of a program are a list of packets, each with a reference to
    its `UnsafeAccess`. Which reference a packet gets is a parameter of the
    steps (`given`). The cursor-free semantics below has packets and memory
    only; every choice of references refines it, so no two can be told apart.
-/

open Transitions

namespace PacketPro

/-! ## Section 1: Packet objects and the calls on them -/

inductive PacketClass where
  | ipv4
  | ipv6
  deriving DecidableEq, Repr

structure PacketObject where
  cls : PacketClass
  packet : Packet
  /-- Reference to the `UnsafeAccess` the packet was constructed with. -/
  ua : Nat

/-- The methods of the packet classes; `whichIP` is one of the calls. -/
inductive PacketMethod where
  | ipv4 (c : Ipv4Call)
  | ipv6 (c : Ipv6Call)
  | getMbuf_pointer
  | setMbuf_pointer (mbuf_pointer : JLong)
  | getPacket_pointer
  | setPacket_pointer (packet_pointer : JLong)

inductive MethodResult where
  | void
  | long (v : JLong)
  | ipv4 (r : CallResult)
  | ipv6 (r : Ipv6Result)
  /-- The object constructed. -/
  | object (i : Nat)
  /-- The object or the method does not exist: no Java program makes the call. -/
  | noSuchMethod
  deriving DecidableEq, Repr

/-- Run a method of a packet of the given class. -/
def PacketMethod.exec (m : PacketMethod) (cls : PacketClass) (p : Packet) (ua : UnsafeAccess)
    (w : World) : MethodResult × Packet × UnsafeAccess × World :=
  match m, cls with
  | .ipv4 c, .ipv4 =>
    let (r, ua, w) := c.exec p ua w
    (.ipv4 r, p, ua, w)
  | .ipv6 c, .ipv6 =>
    let (r, ua, w) := c.exec p ua w
    (.ipv6 r, p, ua, w)
  | .getMbuf_pointer, _ => (.long p.mbuf_pointer, p, ua, w)
  | .setMbuf_pointer mbuf_pointer, _ => (.void, { p with mbuf_pointer }, ua, w)
  | .getPacket_pointer, _ => (.long p.packet_pointer, p, ua, w)
  | .setPacket_pointer packet_pointer, _ => (.void, { p with packet_pointer }, ua, w)
  | .ipv4 _, .ipv6 | .ipv6 _, .ipv4 => (.noSuchMethod, p, ua, w)

inductive PacketStep where
  | construct (cls : PacketClass) (mbuf packet : JLong)
  | call (i : Nat) (m : PacketMethod)

/-- The packet objects of a program, the `UnsafeAccess` objects behind their
    references, and the world they all work on. -/
structure PacketHeap where
  packets : List PacketObject
  accesses : Nat → UnsafeAccess
  world : World

namespace PacketHeap

/-- One call. A new packet is handed the `UnsafeAccess` that `given` names for
    it, and moves its cursor. -/
def step (given : Nat → Nat) (s : PacketHeap) : PacketStep → MethodResult × PacketHeap
  | .construct cls mbuf packet =>
    let i := s.packets.length
    let (p, ua) := Packet.new mbuf packet (s.accesses (given i))
    (.object i,
      { s with
        packets := s.packets ++ [⟨cls, p, given i⟩]
        accesses := Function.update s.accesses (given i) ua })
  | .call i m =>
    match s.packets[i]? with
    | none => (.noSuchMethod, s)
    | some o =>
      let (r, p, ua, w) := m.exec o.cls o.packet (s.accesses o.ua) s.world
      (r,
        { packets := s.packets.set i { o with packet := p }
          accesses := Function.update s.accesses o.ua ua
          world := w })

/-- A program with the given packets, wherever their cursors stand. -/
def start (given : Nat → Nat) (objects : List (PacketClass × Packet))
    (accesses : Nat → UnsafeAccess) (world : World) : PacketHeap where
  packets := objects.mapIdx fun i o => ⟨o.1, o.2, given i⟩
  accesses := accesses
  world := world

/-- All packets are handed one `UnsafeAccess`. -/
def shared : Nat → Nat := fun _ => 0

/-- Every packet is handed its own. -/
def own : Nat → Nat := fun i => i

end PacketHeap

/-! ## Section 2: The cursor-free semantics -/

/-- What a program can observe of its packets, and the world. -/
structure CursorFree where
  packets : List (PacketClass × Packet)
  world : World

/-- What a method does, wherever the cursor stood. -/
def PacketMethod.effect (m : PacketMethod) (cls : PacketClass) (p : Packet) (w : World) :
    MethodResult × Packet × World :=
  let (r, p, _, w) := m.exec cls p UnsafeAccess.new w
  (r, p, w)

namespace CursorFree

def step (s : CursorFree) : PacketStep → MethodResult × CursorFree
  | .construct cls mbuf packet =>
    (.object s.packets.length, { s with packets := s.packets ++ [(cls, ⟨mbuf, packet⟩)] })
  | .call i m =>
    match s.packets[i]? with
    | none => (.noSuchMethod, s)
    | some (cls, p) =>
      let (r, p, w) := m.effect cls p s.world
      (r, ⟨s.packets.set i (cls, p), w⟩)

end CursorFree

/-- Forget the references and the cursors. -/
def PacketHeap.forget (s : PacketHeap) : CursorFree :=
  ⟨s.packets.map fun o => (o.cls, o.packet), s.world⟩

/-! ## Section 3: No call depends on the cursor it finds -/

/-- Every call of the second class, too, starts by pointing the cursor at its
    field; the address loops only move on from there. -/
theorem Ipv6Call.exec_cursor_irrelevant (c : Ipv6Call) (p : Packet) (ua ua' : UnsafeAccess)
    (w : World) : c.exec p ua w = c.exec p ua' w := by
  cases c <;> rfl

theorem PacketMethod.exec_effect (m : PacketMethod) (cls : PacketClass) (p : Packet)
    (ua : UnsafeAccess) (w : World) :
    m.effect cls p w =
      ((m.exec cls p ua w).1, (m.exec cls p ua w).2.1, (m.exec cls p ua w).2.2.2) := by
  cases m with
  | ipv4 c =>
    cases cls with
    | ipv4 => simp only [effect, exec, c.exec_cursor_irrelevant p UnsafeAccess.new ua]
    | ipv6 => rfl
  | ipv6 c =>
    cases cls with
    | ipv4 => rfl
    | ipv6 => simp only [effect, exec, c.exec_cursor_irrelevant p UnsafeAccess.new ua]
  | getMbuf_pointer | setMbuf_pointer | getPacket_pointer | setPacket_pointer => rfl

namespace PacketHeap

/-- **Step lemma**: whichever `UnsafeAccess` a packet has, one call does what
    the cursor-free semantics says. -/
theorem step_forget (given : Nat → Nat) (s : PacketHeap) (a : PacketStep) :
    s.forget.step a = ((s.step given a).1, (s.step given a).2.forget) := by
  cases a with
  | construct cls mbuf packet =>
    simp only [CursorFree.step, step, forget, List.length_map, List.map_append, List.map_cons,
      List.map_nil, Packet.new]
  | call i m =>
    simp only [CursorFree.step, step, forget, List.getElem?_map]
    cases hobj : s.packets[i]? with
    | none => rfl
    | some o =>
      simp only [Option.map_some, m.exec_effect o.cls o.packet (s.accesses o.ua) s.world,
        List.map_set]

@[simp] theorem start_forget (given : Nat → Nat) (objects : List (PacketClass × Packet))
    (accesses : Nat → UnsafeAccess) (w : World) :
    (start given objects accesses w).forget = ⟨objects, w⟩ := by
  simp only [start, forget, CursorFree.mk.injEq, and_true]
  apply List.ext_getElem?
  intro i
  rw [List.getElem?_map, List.getElem?_mapIdx]
  cases objects[i]? <;> rfl

/-- **Run lemma**: a run on given packets is a run without cursors. -/
theorem run_forget (given : Nat → Nat) (objects : List (PacketClass × Packet))
    (accesses : Nat → UnsafeAccess) (w : World) (calls : List PacketStep) :
    run CursorFree.step calls ⟨objects, w⟩ =
      ((run (step given) calls (start given objects accesses w)).1,
        (run (step given) calls (start given objects accesses w)).2.forget) := by
  rw [← start_forget given objects accesses w]
  exact run_simulates forget (step_forget given) calls _

/-- **Main**: sharing one `UnsafeAccess` is unobservable. The calls return the
    same, and leave the same packets in the same world, as when every packet
    has its own. -/
theorem sharing_unobservable (objects : List (PacketClass × Packet))
    (accesses accesses' : Nat → UnsafeAccess) (w : World) (calls : List PacketStep) :
    let one := run (step shared) calls (start shared objects accesses w)
    let each := run (step own) calls (start own objects accesses' w)
    one.1 = each.1 ∧ one.2.world = each.2.world ∧ one.2.forget = each.2.forget := by
  have hone := run_forget shared objects accesses w calls
  have heach := run_forget own objects accesses' w calls
  rw [hone, Prod.mk.injEq] at heach
  obtain ⟨hresults, hforget⟩ := heach
  exact ⟨hresults, congrArg CursorFree.world hforget, hforget⟩

end PacketHeap

end PacketPro
