import PacketPro.Framework.Codec
import PacketPro.Jvm.Swap

/-! # `benchmarks/serializing`: Two Ways to Write an Object

    `TestSerialisationPerf` writes an object a million times and reads it back
    a million times, through a `ByteBuffer` and through `sun.misc.Unsafe`. Both
    write the same fields in the same order; a `ByteBuffer` has the most
    significant byte first, `Unsafe` the byte order of the host.

    A `ByteBuffer` checks its limit at each access, `UnsafeMemory` does not: it
    stores behind the end of its array.

    **Main**:
    * the object comes back from both, any number of times, if it fits; a
      `ByteBuffer` throws if it does not (`byteBuffer_round_trip`), and
      `UnsafeMemory` overwrites what lies behind its array
      (`unsafeMemory_round_trip`);
    * what `read` accepts from a `ByteBuffer` is what `write` writes, but for the
      byte of the flag (`byteBuffer_read_accepts`).
-/

open ByteMem Codecs

namespace PacketPro.Serialisation

/-! ## Section 1: The object -/

structure ObjectToBeSerialised where
  sourceId : JLong
  special : Bool
  orderCode : JInt
  priority : JInt
  prices : List JDouble
  quantities : List JLong

/-- `Arrays.equals` on arrays of doubles, which compares their
    `doubleToLongBits`. -/
def equalDoubles (a b : List JDouble) : Bool := a.map doubleToLongBits = b.map doubleToLongBits

def ObjectToBeSerialised.equals (o that : ObjectToBeSerialised) : Bool :=
  if o.orderCode ≠ that.orderCode then false
  else if o.priority ≠ that.priority then false
  else if o.sourceId ≠ that.sourceId then false
  else if o.special ≠ that.special then false
  else if !equalDoubles o.prices that.prices then false
  else if o.quantities ≠ that.quantities then false
  else true

inductive JException where
  | BufferOverflowException
  | BufferUnderflowException
  | NegativeArraySizeException
  | IllegalArgumentException
  | IllegalStateException
  deriving DecidableEq, Repr

/-- `new T[size]`, filled by a loop that gets one element after the other. -/
def newArray {σ α : Type} (get : StateT σ (Except JException) α) (size : JInt) :
    StateT σ (Except JException) (List α) :=
  if size.toInt < 0 then throw .NegativeArraySizeException else times get size.toNat

/-! ## Section 2: `ByteBuffer` -/

/-- A buffer on the heap, by its array and its indices. -/
structure ByteBuffer where
  hb : Int → BitVec 8
  capacity : Nat
  limit : Nat
  position : Nat

namespace ByteBuffer

def allocate (capacity : Nat) : ByteBuffer := ⟨fun _ => 0, capacity, capacity, 0⟩

def clear (b : ByteBuffer) : ByteBuffer := { b with position := 0, limit := b.capacity }

def flip (b : ByteBuffer) : ByteBuffer := { b with limit := b.position, position := 0 }

/-- The bytes between the position and the limit. -/
def remaining (b : ByteBuffer) : Bytes := window b.hb b.position (b.limit - b.position)

/-- The buffer after a relative put of some bytes. -/
def append (b : ByteBuffer) (bytes : Bytes) : ByteBuffer :=
  { b with hb := overwrite b.hb b.position bytes, position := b.position + bytes.length }

/-- A relative put checks the limit for all its bytes at once. -/
def putBytes (bytes : Bytes) : StateT ByteBuffer (Except JException) Unit := fun b =>
  if b.limit - b.position < bytes.length then .error .BufferOverflowException
  else .ok ((), b.append bytes)

def getBytes (n : Nat) : StateT ByteBuffer (Except JException) Bytes := fun b =>
  if b.limit - b.position < n then .error .BufferUnderflowException
  else .ok (window b.hb b.position n, { b with position := b.position + n })

def put (value : JByte) : StateT ByteBuffer (Except JException) Unit := putBytes [value]

def putInt (value : JInt) : StateT ByteBuffer (Except JException) Unit :=
  putBytes (Order.big.bytes 4 value.toNat)

def putLong (value : JLong) : StateT ByteBuffer (Except JException) Unit :=
  putBytes (Order.big.bytes 8 value.toNat)

/-- All bits are written, also those of a NaN. -/
def putDouble (value : JDouble) : StateT ByteBuffer (Except JException) Unit := putLong value.bits

def get : StateT ByteBuffer (Except JException) JByte := do
  let bytes ← getBytes 1
  pure (BitVec.ofNat 8 (Order.big.number bytes))

def getInt : StateT ByteBuffer (Except JException) JInt := do
  let bytes ← getBytes 4
  pure (BitVec.ofNat 32 (Order.big.number bytes))

def getLong : StateT ByteBuffer (Except JException) JLong := do
  let bytes ← getBytes 8
  pure (BitVec.ofNat 64 (Order.big.number bytes))

def getDouble : StateT ByteBuffer (Except JException) JDouble := do
  let bits ← getLong
  pure (longBitsToDouble bits)

end ByteBuffer

namespace ObjectToBeSerialised

/-- `write(ByteBuffer)`. -/
def write (o : ObjectToBeSerialised) : StateT ByteBuffer (Except JException) Unit := do
  ByteBuffer.putLong o.sourceId
  ByteBuffer.put (if o.special then 1 else 0)
  ByteBuffer.putInt o.orderCode
  ByteBuffer.putInt o.priority
  ByteBuffer.putInt (BitVec.ofNat 32 o.prices.length)
  o.prices.forM ByteBuffer.putDouble
  ByteBuffer.putInt (BitVec.ofNat 32 o.quantities.length)
  o.quantities.forM ByteBuffer.putLong

/-- `0 != byteBuffer.get()`. -/
def readFlag : StateT ByteBuffer (Except JException) Bool := do
  let value ← ByteBuffer.get
  pure (0 ≠ value)

/-- A size, and an array of so many elements. -/
def readArray {α : Type} (get : StateT ByteBuffer (Except JException) α) :
    StateT ByteBuffer (Except JException) (List α) := do
  let size ← ByteBuffer.getInt
  newArray get size

/-- `read(ByteBuffer)`. -/
def read : StateT ByteBuffer (Except JException) ObjectToBeSerialised := do
  let sourceId ← ByteBuffer.getLong
  let special ← readFlag
  let orderCode ← ByteBuffer.getInt
  let priority ← ByteBuffer.getInt
  let prices ← readArray ByteBuffer.getDouble
  let quantities ← readArray ByteBuffer.getLong
  pure ⟨sourceId, special, orderCode, priority, prices, quantities⟩

end ObjectToBeSerialised

/-! ## Section 3: `UnsafeMemory` -/

/-- The array and the memory around it, by the distance from its first element. -/
structure UnsafeMemory where
  heap : Int → BitVec 8
  /-- `buffer.length`. -/
  length : Nat
  pos : JInt

namespace UnsafeMemory

def reset (m : UnsafeMemory) : UnsafeMemory := { m with pos := 0 }

/-- The memory after some bytes were stored at `pos`. -/
def append (m : UnsafeMemory) (bytes : Bytes) : UnsafeMemory :=
  { m with
    heap := overwrite m.heap m.pos.toInt bytes
    pos := m.pos + BitVec.ofNat 32 bytes.length }

/-- A store of one value. -/
def putBytes (bytes : Bytes) : StateT UnsafeMemory (Except JException) Unit := fun m =>
  .ok ((), m.append bytes)

def getBytes (n : Nat) : StateT UnsafeMemory (Except JException) Bytes := fun m =>
  .ok (window m.heap m.pos.toInt n, { m with pos := m.pos + BitVec.ofNat 32 n })

def putBoolean (value : Bool) : StateT UnsafeMemory (Except JException) Unit :=
  putBytes [if value then 1 else 0]

def putInt (value : JInt) : StateT UnsafeMemory (Except JException) Unit :=
  putBytes (Order.little.bytes 4 value.toNat)

def putLong (value : JLong) : StateT UnsafeMemory (Except JException) Unit :=
  putBytes (Order.little.bytes 8 value.toNat)

def getBoolean : StateT UnsafeMemory (Except JException) Bool := do
  let bytes ← getBytes 1
  pure (BitVec.ofNat 8 (Order.little.number bytes) ≠ (0 : JByte))

def getInt : StateT UnsafeMemory (Except JException) JInt := do
  let bytes ← getBytes 4
  pure (BitVec.ofNat 32 (Order.little.number bytes))

def getLong : StateT UnsafeMemory (Except JException) JLong := do
  let bytes ← getBytes 8
  pure (BitVec.ofNat 64 (Order.little.number bytes))

/-- `values.length << 3`, an `int` that becomes a `long`. -/
def bytesToCopy (length : Nat) : JLong := (BitVec.ofNat 32 length <<< 3).signExtend 64

/-- `copyMemory` from an array, whose elements lie one behind the other, and the
    step of `pos`. -/
def putArray (values : List JLong) : StateT UnsafeMemory (Except JException) Unit := do
  putInt (BitVec.ofNat 32 values.length)
  let bytes := bytesToCopy values.length
  if bytes.toInt < 0 then throw .IllegalArgumentException
  else putBytes ((values.flatMap fun v => Order.little.bytes 8 v.toNat).take bytes.toNat)

def putLongArray (values : List JLong) : StateT UnsafeMemory (Except JException) Unit :=
  putArray values

def putDoubleArray (values : List JDouble) : StateT UnsafeMemory (Except JException) Unit :=
  putArray (values.map JDouble.bits)

/-- `copyMemory` into a new array. Elements that it does not reach stay zero. -/
def getArray : StateT UnsafeMemory (Except JException) (List JLong) := do
  let arraySize ← getInt
  if arraySize.toInt < 0 then throw .NegativeArraySizeException
  else
    let bytes := bytesToCopy arraySize.toNat
    if bytes.toInt < 0 then throw .IllegalArgumentException
    else
      let copied ← getBytes bytes.toNat
      pure ((List.range arraySize.toNat).map fun i =>
        BitVec.ofNat 64 (Order.little.number ((copied.drop (8 * i)).take 8)))

def getLongArray : StateT UnsafeMemory (Except JException) (List JLong) := getArray

def getDoubleArray : StateT UnsafeMemory (Except JException) (List JDouble) := do
  let values ← getArray
  pure (values.map longBitsToDouble)

end UnsafeMemory

namespace ObjectToBeSerialised

/-- `write(UnsafeMemory)`. -/
def writeUnsafe (o : ObjectToBeSerialised) : StateT UnsafeMemory (Except JException) Unit := do
  UnsafeMemory.putLong o.sourceId
  UnsafeMemory.putBoolean o.special
  UnsafeMemory.putInt o.orderCode
  UnsafeMemory.putInt o.priority
  UnsafeMemory.putDoubleArray o.prices
  UnsafeMemory.putLongArray o.quantities

/-- `read(UnsafeMemory)`. -/
def readUnsafe : StateT UnsafeMemory (Except JException) ObjectToBeSerialised := do
  let sourceId ← UnsafeMemory.getLong
  let special ← UnsafeMemory.getBoolean
  let orderCode ← UnsafeMemory.getInt
  let priority ← UnsafeMemory.getInt
  let prices ← UnsafeMemory.getDoubleArray
  let quantities ← UnsafeMemory.getLongArray
  pure ⟨sourceId, special, orderCode, priority, prices, quantities⟩

end ObjectToBeSerialised

/-! ## Section 4: The tests -/

/-- A `PerformanceTestCase`: what it does before each write and before each
    read, and its write and its read. -/
structure TestCase (σ : Type) where
  beforeWrite : σ → σ
  write : ObjectToBeSerialised → StateT σ (Except JException) Unit
  beforeRead : σ → σ
  read : StateT σ (Except JException) ObjectToBeSerialised

namespace TestCase

variable {σ : Type}

def testWrite (t : TestCase σ) (item : ObjectToBeSerialised) :
    Nat → StateT σ (Except JException) Unit
  | 0 => pure ()
  | n + 1 => do
    modify t.beforeWrite
    t.write item
    t.testWrite item n

/-- `object` is null at first. -/
def testRead (t : TestCase σ) :
    Nat → Option ObjectToBeSerialised → StateT σ (Except JException) (Option ObjectToBeSerialised)
  | 0, object => pure object
  | n + 1, _ => do
    modify t.beforeRead
    let object ← t.read
    t.testRead n (some object)

def performTest (t : TestCase σ) (repetitions : Nat) (testInput : ObjectToBeSerialised) :
    StateT σ (Except JException) (Option ObjectToBeSerialised) := do
  t.testWrite testInput repetitions
  t.testRead repetitions none

/-- The loop of `main` over one test case. -/
def main (t : TestCase σ) (repetitions : Nat) (item : ObjectToBeSerialised) :
    Nat → StateT σ (Except JException) Unit
  | 0 => pure ()
  | n + 1 => do
    let testOutput ← t.performTest repetitions item
    if testOutput.any item.equals then t.main repetitions item n
    else throw .IllegalStateException

end TestCase

def ITEM : ObjectToBeSerialised where
  sourceId := 1010
  special := true
  orderCode := 777
  priority := 99
  prices := [0x3FB999999999999A, 0x3FC999999999999A, 0x3FD3333333333333, 0x3FD999999999999A,
    0x3FE0000000000000, 0x3FE3333333333333, 0x3FE6666666666666, 0x3FE999999999999A,
    0x3FECCCCCCCCCCCCD, 0x3FF0000000000000].map longBitsToDouble
  quantities := [1, 2, 3, 4, 5, 6, 7, 8, 9, 10]

def byteBufferTest : TestCase ByteBuffer where
  beforeWrite := ByteBuffer.clear
  write := ObjectToBeSerialised.write
  beforeRead := ByteBuffer.flip
  read := ObjectToBeSerialised.read

def unsafeMemoryTest : TestCase UnsafeMemory where
  beforeWrite := UnsafeMemory.reset
  write := ObjectToBeSerialised.writeUnsafe
  beforeRead := UnsafeMemory.reset
  read := ObjectToBeSerialised.readUnsafe

theorem equals_self (o : ObjectToBeSerialised) : o.equals o = true := by
  simp [ObjectToBeSerialised.equals, equalDoubles]

/-- One write establishes `Holds`, under which a read returns the object. -/
structure TestCase.Correct {σ : Type} (t : TestCase σ) (item : ObjectToBeSerialised)
    (Ready Holds : σ → Prop) : Prop where
  write : ∀ s, Ready s → ∃ s', (t.write item).run (t.beforeWrite s) = .ok ((), s') ∧ Holds s'
  read : ∀ s, Holds s → ∃ s', t.read.run (t.beforeRead s) = .ok (item, s') ∧ Holds s'
  ready : ∀ s, Holds s → Ready s

section runs
variable {σ : Type} {t : TestCase σ} {item : ObjectToBeSerialised} {Ready Holds : σ → Prop}

theorem TestCase.testWrite_succ (n : Nat) (s : σ) : (t.testWrite item (n + 1)).run s =
    (t.write item >>= fun _ => t.testWrite item n).run (t.beforeWrite s) := rfl

theorem TestCase.testRead_succ (n : Nat) (object : Option ObjectToBeSerialised) (s : σ) :
    (t.testRead (n + 1) object).run s =
      (t.read >>= fun object => t.testRead n (some object)).run (t.beforeRead s) := rfl

theorem TestCase.Correct.testWrite (h : t.Correct item Ready Holds) (n : Nat) {s : σ}
    (hs : Ready s) : ∃ s', (t.testWrite item (n + 1)).run s = .ok ((), s') ∧ Holds s' := by
  induction n generalizing s with
  | zero =>
    obtain ⟨s', hwrite, hholds⟩ := h.write s hs
    exact ⟨s', by rw [TestCase.testWrite_succ, run_bind_ok hwrite]; rfl, hholds⟩
  | succ n ih =>
    obtain ⟨s', hwrite, hholds⟩ := h.write s hs
    obtain ⟨s'', hrest, hholds'⟩ := ih (h.ready s' hholds)
    exact ⟨s'', by rw [TestCase.testWrite_succ, run_bind_ok hwrite, hrest], hholds'⟩

/-- Each read leaves the buffer ready for the next one. -/
theorem TestCase.Correct.testRead (h : t.Correct item Ready Holds) (n : Nat) {s : σ}
    (hs : Holds s) (object : Option ObjectToBeSerialised) :
    ∃ s', (t.testRead (n + 1) object).run s = .ok (some item, s') ∧ Holds s' := by
  induction n generalizing s object with
  | zero =>
    obtain ⟨s', hread, hholds⟩ := h.read s hs
    exact ⟨s', by rw [TestCase.testRead_succ, run_bind_ok hread]; rfl, hholds⟩
  | succ n ih =>
    obtain ⟨s', hread, hholds⟩ := h.read s hs
    obtain ⟨s'', hrest, hholds'⟩ := ih hholds (some item)
    exact ⟨s'', by rw [TestCase.testRead_succ, run_bind_ok hread, hrest], hholds'⟩

theorem TestCase.Correct.performTest (h : t.Correct item Ready Holds) {repetitions : Nat}
    (hpos : 0 < repetitions) {s : σ} (hs : Ready s) :
    ∃ s', (t.performTest repetitions item).run s = .ok (some item, s') ∧ Holds s' := by
  obtain ⟨n, rfl⟩ := Nat.exists_eq_succ_of_ne_zero (Nat.ne_of_gt hpos)
  obtain ⟨s', hwrite, hholds⟩ := h.testWrite n hs
  obtain ⟨s'', hread, hholds'⟩ := h.testRead n hholds none
  exact ⟨s'', by rw [TestCase.performTest, run_bind_ok hwrite, hread], hholds'⟩

theorem TestCase.Correct.main (h : t.Correct item Ready Holds) {repetitions : Nat}
    (hpos : 0 < repetitions) (n : Nat) {s : σ} (hs : Ready s) :
    ∃ s', (t.main repetitions item n).run s = .ok ((), s') ∧ Ready s' := by
  induction n generalizing s with
  | zero => exact ⟨s, rfl, hs⟩
  | succ n ih =>
    obtain ⟨s', htest, hholds⟩ := h.performTest hpos hs
    obtain ⟨s'', hrest, hready⟩ := ih (h.ready s' hholds)
    refine ⟨s'', ?_, hready⟩
    have hequal : (some item).any item.equals = true := equals_self item
    rw [TestCase.main, run_bind_ok htest, if_pos hequal, hrest]

end runs

/-! ## Section 5: The format -/

section format
variable (order : Order)

def int : Codec JInt := word order 4

def long : Codec JLong := word order 8

def double : Codec JDouble := (long order).map longBitsToDouble JDouble.bits fun _ => rfl

/-- Any byte but zero is read as true. -/
def flag : Codec Bool :=
  (word order 1).map (fun b => decide ((0 : JByte) ≠ b)) (fun b => if b then (1 : JByte) else 0)
    (by decide)

def javaArray {α : Type} (c : Codec α) : Codec (List α) := array order 4 (2 ^ 31) (by decide) c

/-- The fields one behind the other, with `byte` for the flag. -/
def encodeWith (byte : JByte) (o : ObjectToBeSerialised) : Bytes :=
  (long order).encode o.sourceId ++ ((word order 1).encode byte ++
    ((int order).encode o.orderCode ++ ((int order).encode o.priority ++
      ((javaArray order (double order)).encode o.prices ++
        (javaArray order (long order)).encode o.quantities))))

def object : Codec ObjectToBeSerialised where
  encode o := encodeWith order (if o.special then 1 else 0) o
  decode := do
    let sourceId ← (long order).decode
    let special ← (flag order).decode
    let orderCode ← (int order).decode
    let priority ← (int order).decode
    let prices ← (javaArray order (double order)).decode
    let quantities ← (javaArray order (long order)).decode
    pure ⟨sourceId, special, orderCode, priority, prices, quantities⟩
  valid o := o.prices.length < 2 ^ 31 ∧ o.quantities.length < 2 ^ 31
  decode_encode o rest h := by
    have hprices : (javaArray order (double order)).valid o.prices := ⟨h.1, fun _ _ => trivial⟩
    have hquantities : (javaArray order (long order)).valid o.quantities :=
      ⟨h.2, fun _ _ => trivial⟩
    have hflag : (word order 1).encode (if o.special then (1 : JByte) else 0) =
      (flag order).encode o.special := rfl
    simp only [encodeWith, List.append_assoc, hflag]
    rw [Codec.run_bind _ trivial, Codec.run_bind _ trivial, Codec.run_bind _ trivial,
      Codec.run_bind _ trivial, Codec.run_bind _ hprices, Codec.run_bind _ hquantities]
    rfl

theorem double_exact : (double order).Exact :=
  (word_exact order 8).map (fun _ => rfl) fun _ => rfl

/-- The objects that are read, and the bytes they are read from: the flag may be
    any byte that is or is not zero. -/
theorem decode_iff (o : ObjectToBeSerialised) (bytes rest : Bytes) :
    (object order).decode.run bytes = some (o, rest) ↔ (object order).valid o ∧
      ∃ byte : JByte, decide (0 ≠ byte) = o.special ∧ bytes = encodeWith order byte o ++ rest := by
  constructor
  · intro h
    obtain ⟨⟨sourceId, r₁⟩, h₁, h⟩ := Option.bind_eq_some_iff.mp h
    obtain ⟨⟨special, r₂⟩, h₂, h⟩ := Option.bind_eq_some_iff.mp h
    obtain ⟨⟨byte, r₂'⟩, h₂, hflag⟩ := Option.bind_eq_some_iff.mp h₂
    cases hflag
    obtain ⟨⟨orderCode, r₃⟩, h₃, h⟩ := Option.bind_eq_some_iff.mp h
    obtain ⟨⟨priority, r₄⟩, h₄, h⟩ := Option.bind_eq_some_iff.mp h
    obtain ⟨⟨prices, r₅⟩, h₅, h⟩ := Option.bind_eq_some_iff.mp h
    obtain ⟨⟨quantities, r₆⟩, h₆, h⟩ := Option.bind_eq_some_iff.mp h
    cases h
    obtain ⟨hprices, e₅⟩ := array_exact order 4 (2 ^ 31) (by decide) (double_exact order) _ _ _ h₅
    obtain ⟨hquantities, e₆⟩ :=
      array_exact order 4 (2 ^ 31) (by decide) (word_exact order 8) _ _ _ h₆
    refine ⟨⟨hprices.1, hquantities.1⟩, byte, rfl, ?_⟩
    simp only [encodeWith, List.append_assoc]
    rw [(word_exact order 8 _ _ _ h₁).2, (word_exact order 1 _ _ _ h₂).2,
      (word_exact order 4 _ _ _ h₃).2, (word_exact order 4 _ _ _ h₄).2, e₅, e₆]
    rfl
  · rintro ⟨h, byte, hspecial, rfl⟩
    have hprices : (javaArray order (double order)).valid o.prices := ⟨h.1, fun _ _ => trivial⟩
    have hquantities : (javaArray order (long order)).valid o.quantities :=
      ⟨h.2, fun _ _ => trivial⟩
    simp only [encodeWith, List.append_assoc, object]
    rw [Codec.run_bind _ trivial]
    simp only [flag, Codec.map, bind_assoc, pure_bind]
    rw [Codec.run_bind _ trivial, Codec.run_bind _ trivial,
      Codec.run_bind _ trivial, Codec.run_bind _ hprices, Codec.run_bind _ hquantities, hspecial]
    rfl

end format

def ObjectToBeSerialised.size (o : ObjectToBeSerialised) : Nat :=
  25 + 8 * (o.prices.length + o.quantities.length)

theorem length_flatMap_of_const {α : Type} {f : α → Bytes} {n : Nat}
    (hf : ∀ a, (f a).length = n) (as : List α) : (as.flatMap f).length = n * as.length := by
  induction as with
  | nil => rfl
  | cons a as ih =>
    rw [List.flatMap_cons, List.length_append, hf, ih, List.length_cons, Nat.mul_succ, Nat.add_comm]

theorem length_encodeWith (order : Order) (byte : JByte) (o : ObjectToBeSerialised) :
    (encodeWith order byte o).length = o.size := by
  have hword : ∀ n v, ((word order n).encode v).length = n := fun n v => order.bytes_length n _
  have hlong : ∀ v, ((long order).encode v).length = 8 := hword 8
  have hint : ∀ v, ((int order).encode v).length = 4 := hword 4
  have hprices : ((javaArray order (double order)).encode o.prices).length =
      4 + 8 * o.prices.length := by
    rw [javaArray, array, List.length_append, hword,
      length_flatMap_of_const (f := (double order).encode) fun d => hword 8 _]
  have hquantities : ((javaArray order (long order)).encode o.quantities).length =
      4 + 8 * o.quantities.length := by
    rw [javaArray, array, List.length_append, hword,
      length_flatMap_of_const hlong]
  simp only [encodeWith, List.length_append, hword, hlong, hint, hprices, hquantities,
    ObjectToBeSerialised.size]
  omega

theorem length_encode (order : Order) (o : ObjectToBeSerialised) :
    ((object order).encode o).length = o.size :=
  length_encodeWith order _ o

/-! ## Section 6: Through a `ByteBuffer` -/

namespace ByteBuffer

/-- How a `ByteBuffer` grows. -/
def sink : Sink ByteBuffer where
  room b n := n ≤ b.limit - b.position
  append := append
  append_nil b := by
    simp only [append, overwrite_nil, List.length_nil, Nat.add_zero]
  append_append b bytes bytes' _ := by
    simp only [append, Nat.cast_add, overwrite_append, List.length_append, Nat.add_assoc]
  room_append b bytes n := by
    simp only [append]
    omega

theorem putBytes_checked (bytes : Bytes) :
    Checked sink (putBytes bytes) bytes .BufferOverflowException :=
  ⟨fun _ hroom => if_neg (Nat.not_lt.mpr hroom), fun _ hroom => if_pos (Nat.not_le.mp hroom)⟩

/-- Reading moves the position and nothing else. -/
def view : View ByteBuffer where
  rest := remaining
  keeps b b' := b'.hb = b.hb ∧ b'.capacity = b.capacity ∧ b'.limit = b.limit ∧
    (b.position ≤ b.limit → b'.position ≤ b'.limit)
  keeps_refl _ := ⟨rfl, rfl, rfl, id⟩
  keeps_trans _ _ _ h h' :=
    ⟨h'.1.trans h.1, h'.2.1.trans h.2.1, h'.2.2.1.trans h.2.2.1, fun hle => h'.2.2.2 (h.2.2.2 hle)⟩

theorem getBytes_reads (n : Nat) : Reads view (getBytes n) (takeBytes n) := by
  intro b bytes rest h
  simp only [takeBytes, StateT.run, view, remaining, length_window] at h
  split at h
  case isTrue hle =>
    have hsplit : b.limit - b.position = n + (b.limit - (b.position + n)) := by omega
    rw [hsplit, window_add, List.take_left' (length_window ..), List.drop_left' (length_window ..)]
      at h
    cases h
    refine ⟨{ b with position := b.position + n }, if_neg (Nat.not_lt.mpr hle), ?_, rfl, rfl, rfl,
      fun _ => ?_⟩
    · simp only [view, remaining, Nat.cast_add]
    · simp only
      omega
  case isFalse => cases h

theorem getBytes_follows (n : Nat) : Follows view (getBytes n) (takeBytes n) := by
  refine ⟨getBytes_reads n, ?_⟩
  intro b h
  simp only [takeBytes, StateT.run, view, remaining, length_window] at h
  split at h
  case isTrue => cases h
  case isFalse hle => exact ⟨_, if_pos (Nat.not_le.mp hle)⟩

theorem getInt_follows : Follows view getInt (int .big).decode :=
  (getBytes_follows 4).bind fun _ => Follows.pure _

theorem getLong_follows : Follows view getLong (long .big).decode :=
  (getBytes_follows 8).bind fun _ => Follows.pure _

theorem getDouble_follows : Follows view getDouble (double .big).decode :=
  getLong_follows.bind fun _ => Follows.pure _

theorem get_follows : Follows view get (word .big 1).decode :=
  (getBytes_follows 1).bind fun _ => Follows.pure _

end ByteBuffer

/-- A negative size is one from `2 ^ 31` on. -/
theorem toInt_neg_iff (size : JInt) : size.toInt < 0 ↔ ¬size.toNat < 2 ^ 31 := by
  rw [BitVec.toInt_eq_toNat_cond]
  have := size.isLt
  split <;> omega

theorem newArray_follows {σ α : Type} {v : View σ} {get : StateT σ (Except JException) α}
    {d : Decoder α} (hget : Follows v get d) (size : JInt) :
    Follows v (newArray get size)
      (if size.toNat < 2 ^ 31 then times d size.toNat else fun _ => none) := by
  by_cases hneg : size.toInt < 0
  · rw [if_neg ((toInt_neg_iff size).mp hneg), newArray, if_pos hneg]
    exact ⟨fun s a rest h => (by cases h), fun s _ => ⟨_, rfl⟩⟩
  · rw [if_pos (by rwa [toInt_neg_iff, not_not] at hneg), newArray, if_neg hneg]
    exact hget.times size.toNat

namespace ObjectToBeSerialised

open ByteBuffer

theorem readFlag_follows : Follows view readFlag (flag .big).decode :=
  get_follows.bind fun _ => Follows.pure _

theorem readArray_follows {α : Type} {get : StateT ByteBuffer (Except JException) α} {c : Codec α}
    (hget : Follows view get c.decode) : Follows view (readArray get) (javaArray .big c).decode :=
  getInt_follows.bind fun size => newArray_follows hget size

theorem read_follows : Follows view read (object .big).decode :=
  getLong_follows.bind fun _ => readFlag_follows.bind fun _ => getInt_follows.bind fun _ =>
    getInt_follows.bind fun _ => (readArray_follows getDouble_follows).bind fun _ =>
      (readArray_follows getLong_follows).bind fun _ => Follows.pure _

theorem put_eq (b : Bool) :
    ByteBuffer.put (if b then 1 else 0) = putBytes ((flag .big).encode b) := by
  cases b <;> rfl

theorem encode_eq (order : Order) (o : ObjectToBeSerialised) :
    (object order).encode o = (long order).encode o.sourceId ++ ((flag order).encode o.special ++
      ((int order).encode o.orderCode ++ ((int order).encode o.priority ++
        ((int order).encode (BitVec.ofNat 32 o.prices.length) ++
          (o.prices.flatMap (double order).encode ++
            ((int order).encode (BitVec.ofNat 32 o.quantities.length) ++
              o.quantities.flatMap (long order).encode)))))) := by
  simp only [object, encodeWith, javaArray, array, List.append_assoc]
  rfl

theorem write_checked (o : ObjectToBeSerialised) :
    Checked sink o.write ((object .big).encode o) .BufferOverflowException := by
  have hroom : ∀ b, sink.room b 0 := fun b => Nat.zero_le _
  have hprices := Checked.forM (fun d => putBytes_checked ((double .big).encode d)) hroom o.prices
  have hquantities :=
    Checked.forM (fun v => putBytes_checked ((long .big).encode v)) hroom o.quantities
  rw [write, put_eq, encode_eq]
  exact (putBytes_checked _).bind ((putBytes_checked _).bind ((putBytes_checked _).bind
    ((putBytes_checked _).bind ((putBytes_checked _).bind (hprices.bind
      ((putBytes_checked _).bind hquantities))))))

end ObjectToBeSerialised

/-- The buffer holds the object from its start to its position. -/
def ByteBuffer.Holds (capacity : Nat) (o : ObjectToBeSerialised) (b : ByteBuffer) : Prop :=
  b.capacity = capacity ∧ b.flip.remaining = (object .big).encode o

theorem valid_of_size {o : ObjectToBeSerialised} (h : o.size < 2 ^ 31) (order : Order) :
    (object order).valid o := by
  simp only [ObjectToBeSerialised.size] at h
  constructor <;> omega

theorem byteBuffer_correct {o : ObjectToBeSerialised} {capacity : Nat} (hcap : capacity < 2 ^ 31)
    (hsize : o.size ≤ capacity) :
    byteBufferTest.Correct o (fun b => b.capacity = capacity) (ByteBuffer.Holds capacity o) where
  write b hb := by
    have hlen := length_encode .big o
    refine ⟨b.clear.append ((object .big).encode o), ?_, hb, ?_⟩
    · apply (ObjectToBeSerialised.write_checked o).writes
      change _ ≤ b.capacity - 0
      omega
    · simp only [ByteBuffer.remaining, ByteBuffer.flip, ByteBuffer.append, ByteBuffer.clear,
        Nat.zero_add, Nat.sub_zero]
      exact window_overwrite b.hb 0 _
  read b hb := by
    have hvalid := valid_of_size (Nat.lt_of_le_of_lt hsize hcap) .big
    have hdecode := (object .big).decode_encode o [] hvalid
    rw [List.append_nil, ← hb.2] at hdecode
    obtain ⟨b', hread, hrest, hcells, hcapacity, hlimit, hposition⟩ :=
      ObjectToBeSerialised.read_follows.reads b.flip o [] hdecode
    refine ⟨b', hread, hcapacity.trans hb.1, ?_⟩
    -- everything was read, so the next `flip` sets the same limit
    have hend : b'.limit - b'.position = 0 := by
      have hnone := congrArg List.length hrest
      simpa [ByteBuffer.view, ByteBuffer.remaining] using hnone
    have hle := hposition (Nat.zero_le _)
    have hsame : b'.position = b.position := by
      have hlimit' : b'.limit = b.position := hlimit
      omega
    rw [← hb.2]
    simp only [ByteBuffer.remaining, ByteBuffer.flip, hsame, hcells]
  ready b hb := hb.1

/-- **Main**: `read` returns an object exactly if the remaining bytes start with
    its fields, each size not negative and the flag any byte that is or is not
    zero. It reads these bytes and no other. -/
theorem byteBuffer_read_accepts (b b' : ByteBuffer) (o : ObjectToBeSerialised) :
    ObjectToBeSerialised.read.run b = .ok (o, b') ↔ (object .big).valid o ∧
      ∃ byte : JByte, decide (0 ≠ byte) = o.special ∧
        b.remaining = encodeWith .big byte o ++ b'.remaining ∧
        b' = { b with position := b.position + o.size } := by
  -- where a read of these bytes ends
  have hend : ∀ b'' : ByteBuffer, ByteBuffer.view.keeps b b'' →
      ∀ byte, b.remaining = encodeWith .big byte o ++ b''.remaining →
        b'' = { b with position := b.position + o.size } := by
    rintro b'' ⟨hhb, hcapacity, hlimit, hposition⟩ byte hremaining
    have hlen := congrArg List.length hremaining
    rw [List.length_append, length_encodeWith] at hlen
    simp only [ByteBuffer.remaining, length_window, hlimit] at hlen
    have hpos : b''.position = b.position + o.size := by
      simp only [ObjectToBeSerialised.size] at hlen ⊢
      omega
    cases b''
    cases hhb
    cases hcapacity
    cases hlimit
    cases hpos
    rfl
  constructor
  · intro h
    cases hd : (object .big).decode.run b.remaining with
    | none =>
      obtain ⟨e, he⟩ := ObjectToBeSerialised.read_follows.refuses b hd
      rw [he] at h
      cases h
    | some result =>
      obtain ⟨b'', hread, hrest, hkeeps⟩ :=
        ObjectToBeSerialised.read_follows.reads b result.1 result.2 hd
      rw [hread] at h
      cases h
      obtain ⟨hvalid, byte, hbyte, hremaining⟩ := (decode_iff .big _ _ _).mp hd
      rw [← hrest] at hremaining
      exact ⟨hvalid, byte, hbyte, hremaining, hend b' hkeeps byte hremaining⟩
  · rintro ⟨hvalid, byte, hbyte, hremaining, hb'⟩
    have hd := (decode_iff .big o b.remaining b'.remaining).mpr ⟨hvalid, byte, hbyte, hremaining⟩
    obtain ⟨b'', hread, hrest, hkeeps⟩ := ObjectToBeSerialised.read_follows.reads b o _ hd
    have hrest' : b''.remaining = b'.remaining := hrest
    have heq := hend b'' hkeeps byte (by rw [hrest', hremaining])
    rw [hread, heq, hb']

/-- **Main**: if the object fits, every test of every run returns it and `main`
    does not complain; if it does not fit, the first write throws. -/
theorem byteBuffer_round_trip (o : ObjectToBeSerialised) (b : ByteBuffer)
    (hcap : b.capacity < 2 ^ 31) {repetitions : Nat} (hpos : 0 < repetitions) (n : Nat) :
    (o.size ≤ b.capacity →
      (∃ b', (byteBufferTest.performTest repetitions o).run b = .ok (some o, b')) ∧
        ∃ b', (byteBufferTest.main repetitions o n).run b = .ok ((), b')) ∧
      (b.capacity < o.size →
        (byteBufferTest.performTest repetitions o).run b = .error .BufferOverflowException) := by
  constructor
  · intro hsize
    have h := byteBuffer_correct hcap hsize
    obtain ⟨b', htest, -⟩ := h.performTest hpos rfl
    obtain ⟨b'', hmain, -⟩ := h.main hpos n rfl
    exact ⟨⟨b', htest⟩, b'', hmain⟩
  · intro hsize
    obtain ⟨m, rfl⟩ := Nat.exists_eq_succ_of_ne_zero (Nat.ne_of_gt hpos)
    have hwrite : o.write.run b.clear = .error .BufferOverflowException := by
      apply (ObjectToBeSerialised.write_checked o).overflows
      simp only [ByteBuffer.sink, ByteBuffer.clear, length_encode .big o]
      omega
    have htest : (byteBufferTest.testWrite o (m + 1)).run b = .error .BufferOverflowException := by
      rw [TestCase.testWrite_succ, StateT.run_bind]
      exact congrArg (· >>= fun x => (byteBufferTest.testWrite o m).run x.2) hwrite
    rw [TestCase.performTest, StateT.run_bind, htest]
    rfl

theorem byteBuffer_round_trip_item :
    ∃ b', (byteBufferTest.performTest 1000000 ITEM).run (.allocate 1024) = .ok (some ITEM, b') :=
  ((byteBuffer_round_trip ITEM (.allocate 1024) (by decide) (by decide) 5).1 (by decide)).1

/-! ## Section 7: Through `UnsafeMemory` -/

/-- `bytesToCopy` is right as long as it is an `int`. -/
theorem bytesToCopy_toInt {length : Nat} (h : 8 * length < 2 ^ 31) :
    (UnsafeMemory.bytesToCopy length).toInt = 8 * length := by
  have hshift : (BitVec.ofNat 32 length <<< 3).toNat = 8 * length := by
    rw [BitVec.toNat_shiftLeft, BitVec.toNat_ofNat, Nat.shiftLeft_eq,
      Nat.mod_eq_of_lt (by omega : length < 2 ^ 32), Nat.mod_eq_of_lt (by omega)]
    omega
  rw [UnsafeMemory.bytesToCopy, BitVec.toInt_signExtend_of_le (by decide),
    BitVec.toInt_eq_toNat_cond, hshift, if_pos (by omega)]
  omega

theorem bytesToCopy_toNat {length : Nat} (h : 8 * length < 2 ^ 31) :
    (UnsafeMemory.bytesToCopy length).toNat = 8 * length := by
  have hint := bytesToCopy_toInt h
  rw [BitVec.toInt_eq_toNat_cond] at hint
  split at hint <;> omega

namespace UnsafeMemory

theorem step_pos (pos : JInt) (n : Nat) (h : pos.toNat + n < 2 ^ 31) :
    (pos + BitVec.ofNat 32 n).toNat = pos.toNat + n := by
  rw [BitVec.toNat_add, BitVec.toNat_ofNat]
  omega

theorem pos_toInt {pos : JInt} (h : pos.toNat < 2 ^ 31) : pos.toInt = pos.toNat := by
  rw [BitVec.toInt_eq_toNat_cond, if_pos (by omega)]

/-- How the memory is written as long as `pos` does not overflow. -/
def sink : Sink UnsafeMemory where
  room m n := m.pos.toNat + n < 2 ^ 31
  append := append
  append_nil m := by
    simp only [append, overwrite_nil, List.length_nil, BitVec.add_zero]
  append_append m bytes bytes' h := by
    have hstep := step_pos m.pos bytes.length (by omega)
    have hnext : (m.pos + BitVec.ofNat 32 bytes.length).toInt = m.pos.toInt + bytes.length := by
      rw [pos_toInt (by omega), pos_toInt (by omega), hstep, Nat.cast_add]
    simp only [append, hnext, overwrite_append, List.length_append, BitVec.ofNat_add,
      BitVec.add_assoc]
  room_append m bytes n := by
    simp only [append]
    constructor
    · intro h
      rw [step_pos _ _ (by omega)]
      omega
    · rintro ⟨hfirst, hsecond⟩
      rw [step_pos _ _ hfirst] at hsecond
      omega

theorem putBytes_writes (bytes : Bytes) : Writes sink (putBytes bytes) bytes := fun _ _ => rfl

/-- Reading moves `pos` and nothing else. -/
def view : View UnsafeMemory where
  rest m := window m.heap m.pos.toInt (2 ^ 31 - 1 - m.pos.toNat)
  keeps m m' := m'.heap = m.heap ∧ m'.length = m.length
  keeps_refl _ := ⟨rfl, rfl⟩
  keeps_trans _ _ _ h h' := ⟨h'.1.trans h.1, h'.2.trans h.2⟩

theorem getBytes_reads (n : Nat) : Reads view (getBytes n) (takeBytes n) := by
  intro m bytes rest h
  simp only [takeBytes, StateT.run, view, length_window] at h
  split at h
  case isTrue hle =>
    by_cases hpos : m.pos.toNat < 2 ^ 31
    · have hsplit : 2 ^ 31 - 1 - m.pos.toNat = n + (2 ^ 31 - 1 - (m.pos.toNat + n)) := by omega
      have hstep := step_pos m.pos n (by omega)
      have hnext : (m.pos + BitVec.ofNat 32 n).toInt = m.pos.toInt + n := by
        rw [pos_toInt (by omega), pos_toInt hpos, hstep, Nat.cast_add]
      rw [hsplit, window_add, List.take_left' (length_window ..),
        List.drop_left' (length_window ..)] at h
      cases h
      refine ⟨{ m with pos := m.pos + BitVec.ofNat 32 n }, rfl, ?_, rfl, rfl⟩
      simp only [view, hnext, hstep]
    · have hzero : n = 0 := by omega
      subst hzero
      cases h
      refine ⟨_, rfl, ?_, rfl, rfl⟩
      simp [view, window]
  case isFalse => cases h

theorem getInt_reads : Reads view getInt (int .little).decode :=
  (getBytes_reads 4).bind fun _ => Reads.pure _

theorem getLong_reads : Reads view getLong (long .little).decode :=
  (getBytes_reads 8).bind fun _ => Reads.pure _

theorem putBoolean_eq (b : Bool) : putBoolean b = putBytes ((flag .little).encode b) := by
  cases b <;> rfl

/-- The block that `copyMemory` stores is the elements one behind the other. -/
theorem putArray_writes (values : List JLong) :
    Writes sink (putArray values) ((javaArray .little (long .little)).encode values) := by
  have hblock : (values.flatMap (long .little).encode).length = 8 * values.length :=
    length_flatMap_of_const (f := (long .little).encode) (fun v => Order.little.bytes_length 8 _)
      values
  have hlen : ((javaArray .little (long .little)).encode values).length =
      4 + 8 * values.length := by
    rw [← hblock, ← Order.little.bytes_length 4 (BitVec.ofNat 32 values.length).toNat,
      ← List.length_append]
    rfl
  intro m hroom
  have hsmall : 8 * values.length < 2 ^ 31 := by
    simp only [sink, hlen] at hroom
    omega
  have hcopied : (values.flatMap (long .little).encode).take (bytesToCopy values.length).toNat =
      values.flatMap (long .little).encode := by
    rw [bytesToCopy_toNat hsmall]
    exact List.take_of_length_le (Nat.le_of_eq hblock)
  have hwrites : Writes sink (putArray values)
      ((int .little).encode (BitVec.ofNat 32 values.length) ++
        values.flatMap (long .little).encode) := by
    refine (putBytes_writes _).bind ?_
    have hcopy : Writes sink (putBytes ((values.flatMap (long .little).encode).take
        (bytesToCopy values.length).toNat)) (values.flatMap (long .little).encode) := by
      rw [hcopied]
      exact putBytes_writes _
    have hnonneg : ¬(bytesToCopy values.length).toInt < 0 := by
      rw [bytesToCopy_toInt hsmall]
      omega
    simp only [if_neg hnonneg]
    exact hcopy
  exact hwrites m hroom

theorem getArray_reads :
    Reads view getArray (javaArray .little (long .little)).decode := by
  refine getInt_reads.bind fun size => ?_
  by_cases hneg : size.toInt < 0
  · rw [if_neg ((toInt_neg_iff size).mp hneg)]
    exact fun m as rest h => by cases h
  · have hlt := (toInt_neg_iff size).not.mp hneg
    rw [not_not] at hlt
    rw [if_pos hlt, if_neg hneg]
    intro m as rest h
    obtain ⟨hlen, hrest, hvalues⟩ := times_word .little 8 size.toNat h
    have hsmall : 8 * size.toNat < 2 ^ 31 := by
      simp only [view, length_window] at hlen
      omega
    have htake : (takeBytes (8 * size.toNat)).run (view.rest m) =
        some ((view.rest m).take (8 * size.toNat), (view.rest m).drop (8 * size.toNat)) :=
      if_pos hlen
    obtain ⟨m', hget, hrest', hkeeps⟩ := getBytes_reads (8 * size.toNat) m _ _ htake
    have hnonneg : ¬(bytesToCopy size.toNat).toInt < 0 := by
      rw [bytesToCopy_toInt hsmall]
      omega
    refine ⟨m', ?_, hrest'.trans hrest.symm, hkeeps⟩
    simp only [if_neg hnonneg, bytesToCopy_toNat hsmall]
    rw [run_bind_ok hget, hvalues]
    -- element `i` lies in the copied block
    have hcopied : ∀ i ∈ List.range size.toNat,
        (((view.rest m).take (8 * size.toNat)).drop (8 * i)).take 8 =
          ((view.rest m).drop (8 * i)).take 8 := by
      intro i hi
      rw [List.mem_range] at hi
      rw [List.drop_take, List.take_take, Nat.min_eq_left (by omega)]
    simp only [List.map_congr_left fun i hi => congrArg (fun bytes =>
      BitVec.ofNat 64 (Order.little.number bytes)) (hcopied i hi)]
    rfl

theorem getDoubleArray_reads :
    Reads view getDoubleArray (javaArray .little (double .little)).decode := by
  have hdecode := array_map .little 4 (2 ^ 31) (by decide) (long .little) longBitsToDouble
    JDouble.bits fun _ => rfl
  have hreads := getArray_reads.bind fun values => Reads.pure (values.map longBitsToDouble)
  exact hdecode ▸ hreads

theorem putDoubleArray_writes (values : List JDouble) :
    Writes sink (putDoubleArray values)
      ((javaArray .little (double .little)).encode values) := by
  have hsame : (javaArray .little (double .little)).encode values =
      (javaArray .little (long .little)).encode (values.map JDouble.bits) := by
    simp only [javaArray, array, List.length_map, List.flatMap_map]
    rfl
  rw [hsame]
  exact putArray_writes (values.map JDouble.bits)

theorem getBoolean_reads : Reads view getBoolean (flag .little).decode := by
  have hdecode : (flag .little).decode = takeBytes 1 >>= fun bytes =>
      pure (decide (BitVec.ofNat 8 (Order.little.number bytes) ≠ (0 : JByte))) := by
    simp only [flag, Codec.map, word, bind_assoc, pure_bind, ne_comm]
  rw [hdecode]
  exact (getBytes_reads 1).bind fun _ => Reads.pure _

end UnsafeMemory

namespace ObjectToBeSerialised

open UnsafeMemory

theorem writeUnsafe_writes (o : ObjectToBeSerialised) :
    Writes sink o.writeUnsafe ((object .little).encode o) := by
  rw [writeUnsafe, putBoolean_eq]
  exact (putBytes_writes _).bind ((putBytes_writes _).bind ((putBytes_writes _).bind
    ((putBytes_writes _).bind ((putDoubleArray_writes o.prices).bind
      (putArray_writes o.quantities)))))

theorem readUnsafe_reads : Reads view readUnsafe (object .little).decode :=
  getLong_reads.bind fun _ => getBoolean_reads.bind fun _ => getInt_reads.bind fun _ =>
    getInt_reads.bind fun _ => getDoubleArray_reads.bind fun _ => getArray_reads.bind fun _ =>
      Reads.pure _

end ObjectToBeSerialised

/-- The bytes around the object are those of `m₀`. -/
def UnsafeMemory.Ready (m₀ : UnsafeMemory) (o : ObjectToBeSerialised) (m : UnsafeMemory) : Prop :=
  m.length = m₀.length ∧ ∀ i : Int, i < 0 ∨ o.size ≤ i → m.heap i = m₀.heap i

/-- The memory holds the object from the start of the array on. -/
def UnsafeMemory.Holds (m₀ : UnsafeMemory) (o : ObjectToBeSerialised) (m : UnsafeMemory) : Prop :=
  UnsafeMemory.Ready m₀ o m ∧ window m.heap 0 o.size = (object .little).encode o

theorem unsafeMemory_correct {o : ObjectToBeSerialised} (m₀ : UnsafeMemory)
    (hsize : o.size < 2 ^ 31) :
    unsafeMemoryTest.Correct o (UnsafeMemory.Ready m₀ o) (UnsafeMemory.Holds m₀ o) where
  write m hm := by
    have hlen := length_encode .little o
    refine ⟨m.reset.append ((object .little).encode o), ?_, ⟨hm.1, ?_⟩, ?_⟩
    · apply ObjectToBeSerialised.writeUnsafe_writes o
      change 0 + _ < 2 ^ 31
      omega
    · intro i hi
      rw [← hm.2 i hi]
      apply overwrite_of_not_mem
      rw [hlen, show m.reset.pos.toInt = 0 from rfl, Int.zero_add]
      exact hi
    · rw [← hlen]
      exact window_overwrite m.heap 0 _
  read m hm := by
    have hdecode := (object .little).decode_encode o
      (window m.heap o.size (2 ^ 31 - 1 - o.size)) (valid_of_size hsize .little)
    have hrest : UnsafeMemory.view.rest m.reset = (object .little).encode o ++
        window m.heap o.size (2 ^ 31 - 1 - o.size) := by
      have hall : 2 ^ 31 - 1 - m.reset.pos.toNat = o.size + (2 ^ 31 - 1 - o.size) := by
        rw [show m.reset.pos.toNat = 0 from rfl]
        omega
      have hstart : m.reset.pos.toInt = 0 := rfl
      simp only [UnsafeMemory.view, hall, window_add, hstart, Int.zero_add]
      rw [← hm.2]
      rfl
    rw [← hrest] at hdecode
    obtain ⟨m', hread, -, hheap, hlength⟩ :=
      ObjectToBeSerialised.readUnsafe_reads m.reset o _ hdecode
    refine ⟨m', hread, ⟨hlength.trans hm.1.1, fun i hi => ?_⟩, ?_⟩
    · rw [hheap]
      exact hm.1.2 i hi
    · rw [hheap]
      exact hm.2
  ready m hm := hm.1

/-- **Main**: if the object fits into the array, every test of every run returns
    it and no byte around the array changes. If it does not fit, a write does not
    stop at the end of the array: the rest of the object is stored behind it. -/
theorem unsafeMemory_round_trip (o : ObjectToBeSerialised) (m : UnsafeMemory)
    (hsize : o.size < 2 ^ 31) {repetitions : Nat} (hpos : 0 < repetitions) (n : Nat) :
    (o.size ≤ m.length →
      (∃ m', (unsafeMemoryTest.performTest repetitions o).run m = .ok (some o, m') ∧
          ∀ i : Int, i < 0 ∨ m.length ≤ i → m'.heap i = m.heap i) ∧
        ∃ m', (unsafeMemoryTest.main repetitions o n).run m = .ok ((), m') ∧
          ∀ i : Int, i < 0 ∨ m.length ≤ i → m'.heap i = m.heap i) ∧
      (m.length < o.size → ∃ m', o.writeUnsafe.run m.reset = .ok ((), m') ∧
        window m'.heap m.length (o.size - m.length) =
          ((object .little).encode o).drop m.length) := by
  have h := unsafeMemory_correct m hsize
  have hready : UnsafeMemory.Ready m o m := ⟨rfl, fun _ _ => rfl⟩
  constructor
  · intro hfits
    have haround : ∀ m', UnsafeMemory.Ready m o m' →
        ∀ i : Int, i < 0 ∨ m.length ≤ i → m'.heap i = m.heap i := by
      intro m' hm' i hi
      exact hm'.2 i (hi.imp_right fun hle => by omega)
    obtain ⟨m', htest, hholds⟩ := h.performTest hpos hready
    obtain ⟨m'', hmain, hready'⟩ := h.main hpos n hready
    exact ⟨⟨m', htest, haround m' hholds.1⟩, m'', hmain, haround m'' hready'⟩
  · intro hlong
    obtain ⟨m', hwrite, -, hwindow⟩ := h.write m hready
    refine ⟨m', hwrite, ?_⟩
    have hsplit := window_add m'.heap 0 m.length (o.size - m.length)
    rw [Nat.add_sub_cancel' (Nat.le_of_lt hlong), hwindow, Int.zero_add] at hsplit
    rw [hsplit, List.drop_left' (length_window ..)]

theorem unsafeMemory_round_trip_item :
    ∃ m', (unsafeMemoryTest.main 1000000 ITEM 5).run ⟨fun _ => 0, 1024, 0⟩ = .ok ((), m') ∧
      ∀ i : Int, i < 0 ∨ 1024 ≤ i → m'.heap i = 0 :=
  ((unsafeMemory_round_trip ITEM ⟨fun _ => 0, 1024, 0⟩ (by decide) (by decide) 5).1
    (by decide)).2

end PacketPro.Serialisation
