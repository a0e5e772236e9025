import PacketPro.World

/-! # `Utils.c`: Byte-Wise Accessors

    The C helpers that move 8-, 16-, 32- and 64-bit values in and out of
    native memory one byte at a time. The `insert` functions write the highest
    byte first, with a shift and a mask for each byte; the `get` functions add
    up shifted bytes, with the usual promotion of a byte to `int`.

    Each function has one spec lemma: an `insert` is a little-endian store and
    a `get` is a little-endian load of the word at `point + position`.
-/

open ByteMem

namespace PacketPro

/-! ## Section 1: Definitions -/

/-- `pointer[position]` as an address. -/
def cell (point : Addr) (position : Nat) : Addr := point + BitVec.ofNat 64 position

/-- `pointer[position]` as a value. -/
def peek (point : Addr) (position : Nat) (w : World) : BitVec 8 × World :=
  (w.mem (cell point position), w.touch (cell point position) 1)

/-- `pointer[position] = value`. -/
def poke (point : Addr) (position : Nat) (value : BitVec 8) (w : World) : World :=
  w.store (cell point position) 1 value.toNat

def get8 (point : Addr) (position : Nat) (w : World) : BitVec 8 × World :=
  peek point position w

def get16 (point : Addr) (position : Nat) (w : World) : BitVec 16 × World :=
  let (b1, w) := peek point (position + 1) w
  let value : BitVec 16 := (b1.setWidth 32 <<< 8).setWidth 16
  let (b0, w) := peek point position w
  ((value.setWidth 32 + b0.setWidth 32).setWidth 16, w)

def get32 (point : Addr) (position : Nat) (w : World) : BitVec 32 × World :=
  let (b3, w) := peek point (position + 3) w
  let value : BitVec 32 := b3.setWidth 32 <<< 24
  let (b2, w) := peek point (position + 2) w
  let value := value + b2.setWidth 32 <<< 16
  let (b1, w) := peek point (position + 1) w
  let value := value + b1.setWidth 32 <<< 8
  let (b0, w) := peek point position w
  (value + b0.setWidth 32, w)

def get64 (point : Addr) (position : Nat) (w : World) : BitVec 64 × World :=
  let (b7, w) := peek point (position + 7) w
  let value : BitVec 64 := b7.setWidth 64 <<< 56
  let (b6, w) := peek point (position + 6) w
  let value := value + b6.setWidth 64 <<< 48
  let (b5, w) := peek point (position + 5) w
  let value := value + b5.setWidth 64 <<< 40
  let (b4, w) := peek point (position + 4) w
  let value := value + b4.setWidth 64 <<< 32
  let (b3, w) := peek point (position + 3) w
  let value := value + b3.setWidth 64 <<< 24
  let (b2, w) := peek point (position + 2) w
  let value := value + b2.setWidth 64 <<< 16
  let (b1, w) := peek point (position + 1) w
  let value := value + b1.setWidth 64 <<< 8
  let (b0, w) := peek point position w
  (value + b0.setWidth 64, w)

def insert8 (point : Addr) (position : Nat) (value : BitVec 8) (w : World) : World :=
  poke point position value w

def insert16 (point : Addr) (position : Nat) (value : BitVec 16) (w : World) : World :=
  let w := poke point (position + 1) ((value >>> 8 &&& 0xFF).setWidth 8) w
  poke point position ((value &&& 0xFF).setWidth 8) w

def insert32 (point : Addr) (position : Nat) (value : BitVec 32) (w : World) : World :=
  let w := poke point (position + 3) ((value >>> 24 &&& 0xFF).setWidth 8) w
  let w := poke point (position + 2) ((value >>> 16 &&& 0xFF).setWidth 8) w
  let w := poke point (position + 1) ((value >>> 8 &&& 0xFF).setWidth 8) w
  poke point position ((value &&& 0xFF).setWidth 8) w

def insert64 (point : Addr) (position : Nat) (value : BitVec 64) (w : World) : World :=
  let w := poke point (position + 7) ((value >>> 56 &&& 0xFF).setWidth 8) w
  let w := poke point (position + 6) ((value >>> 48 &&& 0xFF).setWidth 8) w
  let w := poke point (position + 5) ((value >>> 40 &&& 0xFF).setWidth 8) w
  let w := poke point (position + 4) ((value >>> 32 &&& 0xFF).setWidth 8) w
  let w := poke point (position + 3) ((value >>> 24 &&& 0xFF).setWidth 8) w
  let w := poke point (position + 2) ((value >>> 16 &&& 0xFF).setWidth 8) w
  let w := poke point (position + 1) ((value >>> 8 &&& 0xFF).setWidth 8) w
  poke point position ((value &&& 0xFF).setWidth 8) w

/-! ## Section 2: The stores -/

/-- The byte that a shift and a mask select is the matching base-256 digit. -/
theorem byte_toNat {n : Nat} (hn : 8 ≤ n) (value : BitVec n) (k : Nat) :
    ((value >>> k &&& 0xFF).setWidth 8).toNat = value.toNat / 2 ^ k % 256 := by
  have hmask : (255 : Nat) % 2 ^ n = 255 :=
    Nat.mod_eq_of_lt (Nat.lt_of_lt_of_le (by decide) (Nat.pow_le_pow_right (by decide) hn))
  have hand : value.toNat / 2 ^ k &&& 255 = value.toNat / 2 ^ k % 256 :=
    Nat.and_two_pow_sub_one_eq_mod _ 8
  simp only [BitVec.toNat_setWidth, BitVec.toNat_and, BitVec.toNat_ushiftRight,
    BitVec.toNat_ofNat, BitVec.ofNat_eq_ofNat, hmask, Nat.shiftRight_eq_div_pow, hand,
    Nat.reducePow, Nat.mod_mod]

@[simp] theorem poke_mem (point : Addr) (position : Nat) (value : BitVec 8) (w : World) :
    (poke point position value w).mem = storeLE w.mem (cell point position) 1 value.toNat := rfl

theorem cell_add (point : Addr) (i j : Nat) :
    cell point (i + j) = cell point i + BitVec.ofNat 64 j :=
  (add_ofNat_add_ofNat point i j).symm

/-- Part of a buffer, given by its offset in it. -/
theorem cell_slice_subset (point : Addr) (offset len i n : Nat) (h : i + n ≤ len)
    (hlen : len ≤ 2 ^ 64) :
    (⟨cell point (offset + i), n⟩ : Region 64) ⊆ ⟨cell point offset, len⟩ := by
  have hslice := Region.slice_subset (⟨cell point offset, len⟩ : Region 64) i n h hlen
  rw [cell_add]
  exact hslice

@[simp] theorem cell_zero (point : Addr) : cell point 0 = point := by
  simp [cell]

theorem cell_subset (point : Addr) (len i n : Nat) (h : i + n ≤ len) (hlen : len ≤ 2 ^ 64) :
    (⟨cell point i, n⟩ : Region 64) ⊆ ⟨point, len⟩ :=
  Region.slice_subset (⟨point, len⟩ : Region 64) i n h hlen

/-- One more byte in front of a byte-wise store. The store lemmas for all
    widths are chains of this step, from the highest byte down. -/
theorem poke_byte_mem {n k bits : Nat} {point : Addr} {position : Nat} {w w' : World}
    (hbits : 8 ≤ bits) (value : BitVec bits)
    (h : w'.mem = storeLE w.mem (cell point (position + 1)) n (value.toNat / 2 ^ (k + 8))) :
    (poke point position ((value >>> k &&& 0xFF).setWidth 8) w').mem =
      storeLE w.mem (cell point position) (n + 1) (value.toNat / 2 ^ k) := by
  have hdiv : value.toNat / 2 ^ k / 256 = value.toNat / 2 ^ (k + 8) := by
    rw [Nat.div_div_eq_div_mul, Nat.pow_add]
  have hnext : cell point position + 1 = cell point (position + 1) :=
    (cell_add point position 1).symm
  rw [storeLE_succ, hdiv, hnext, ← h, poke_mem, byte_toNat hbits]
  exact storeLE_congr_value _ _ (by simp)

/-- The lowest byte, which the source writes without a shift. -/
theorem poke_lowByte_mem {n bits : Nat} {point : Addr} {position : Nat} {w w' : World}
    (hbits : 8 ≤ bits) (value : BitVec bits)
    (h : w'.mem = storeLE w.mem (cell point (position + 1)) n (value.toNat / 2 ^ 8)) :
    (poke point position ((value &&& 0xFF).setWidth 8) w').mem =
      storeLE w.mem (cell point position) (n + 1) value.toNat := by
  have hstep := poke_byte_mem (k := 0) hbits value (by simpa using h)
  simpa using hstep

theorem insert8_mem (point : Addr) (position : Nat) (value : BitVec 8) (w : World) :
    (insert8 point position value w).mem =
      storeLE w.mem (cell point position) 1 value.toNat := rfl

theorem insert16_mem (point : Addr) (position : Nat) (value : BitVec 16) (w : World) :
    (insert16 point position value w).mem =
      storeLE w.mem (cell point position) 2 value.toNat := by
  apply poke_lowByte_mem (by decide)
  apply poke_byte_mem (by decide)
  exact (storeLE_zero _ _ _).symm

theorem insert32_mem (point : Addr) (position : Nat) (value : BitVec 32) (w : World) :
    (insert32 point position value w).mem =
      storeLE w.mem (cell point position) 4 value.toNat := by
  apply poke_lowByte_mem (by decide)
  iterate 3 apply poke_byte_mem (by decide)
  exact (storeLE_zero _ _ _).symm

theorem insert64_mem (point : Addr) (position : Nat) (value : BitVec 64) (w : World) :
    (insert64 point position value w).mem =
      storeLE w.mem (cell point position) 8 value.toNat := by
  apply poke_lowByte_mem (by decide)
  iterate 7 apply poke_byte_mem (by decide)
  exact (storeLE_zero _ _ _).symm

/-! ## Section 3: The loads -/

/-- A byte of a word, widened: the value `pointer[position + k]` contributes. -/
theorem peek_fst (point : Addr) (position : Nat) (w : World) :
    (peek point position w).1 = w.mem (cell point position) := rfl

@[simp] theorem peek_mem (point : Addr) (position : Nat) (w : World) :
    (peek point position w).2.mem = w.mem := rfl

theorem loadLE_cell_succ (m : Memory 64) (point : Addr) (position n : Nat) :
    loadLE m (cell point position) (n + 1) =
      (m (cell point position)).toNat + 256 * loadLE m (cell point (position + 1)) n := by
  rw [loadLE, cell_add point position 1]
  rfl

theorem get16_fst (point : Addr) (position : Nat) (w : World) :
    (get16 point position w).1 = BitVec.ofNat 16 (loadLE w.mem (cell point position) 2) := by
  have h0 := (w.mem (cell point position)).isLt
  have h1 := (w.mem (cell point (position + 1))).isLt
  apply BitVec.eq_of_toNat_eq
  simp only [get16, peek_fst, peek_mem, loadLE_cell_succ, BitVec.toNat_setWidth,
    BitVec.toNat_add, BitVec.toNat_shiftLeft, Nat.shiftLeft_eq, BitVec.toNat_ofNat, loadLE_zero,
    Nat.add_assoc, Nat.reduceAdd]
  omega

theorem get32_fst (point : Addr) (position : Nat) (w : World) :
    (get32 point position w).1 = BitVec.ofNat 32 (loadLE w.mem (cell point position) 4) := by
  have h0 := (w.mem (cell point position)).isLt
  have h1 := (w.mem (cell point (position + 1))).isLt
  have h2 := (w.mem (cell point (position + 2))).isLt
  have h3 := (w.mem (cell point (position + 3))).isLt
  apply BitVec.eq_of_toNat_eq
  simp only [get32, peek_fst, peek_mem, loadLE_cell_succ, BitVec.toNat_setWidth,
    BitVec.toNat_add, BitVec.toNat_shiftLeft, Nat.shiftLeft_eq, BitVec.toNat_ofNat, loadLE_zero,
    Nat.add_assoc, Nat.reduceAdd]
  omega

theorem get64_fst (point : Addr) (position : Nat) (w : World) :
    (get64 point position w).1 = word64 w.mem (cell point position) := by
  have h0 := (w.mem (cell point position)).isLt
  have h1 := (w.mem (cell point (position + 1))).isLt
  have h2 := (w.mem (cell point (position + 2))).isLt
  have h3 := (w.mem (cell point (position + 3))).isLt
  have h4 := (w.mem (cell point (position + 4))).isLt
  have h5 := (w.mem (cell point (position + 5))).isLt
  have h6 := (w.mem (cell point (position + 6))).isLt
  have h7 := (w.mem (cell point (position + 7))).isLt
  apply BitVec.eq_of_toNat_eq
  simp only [get64, peek_fst, peek_mem, word64, loadLE_cell_succ, BitVec.toNat_setWidth,
    BitVec.toNat_add, BitVec.toNat_shiftLeft, Nat.shiftLeft_eq, BitVec.toNat_ofNat, loadLE_zero,
    Nat.add_assoc, Nat.reduceAdd]
  omega

/-! ## Section 4: What the accessors touch -/

section confined
variable {allowed : AccessKind → Addr → Prop} {point : Addr} {position : Nat}

/-- Permission for a word is permission for each of its bytes. -/
theorem allowed_byte {kind : AccessKind} {n : Nat} (i : Nat) (hi : i < n) (hn : n ≤ 2 ^ 64)
    (h : ∀ b, b ∈ (⟨cell point position, n⟩ : Region 64) → allowed kind b) :
    ∀ b, b ∈ (⟨cell point (position + i), 1⟩ : Region 64) → allowed kind b := by
  intro b hb
  exact h b (cell_slice_subset point position n i 1 (by omega) hn b hb)

theorem poke_confined (value : BitVec 8) (w : World)
    (h : ∀ b, b ∈ (⟨cell point position, 1⟩ : Region 64) → allowed .store b) :
    World.Confined allowed w (poke point position value w) :=
  World.store_confined w _ h

theorem peek_confined (w : World)
    (h : ∀ b, b ∈ (⟨cell point position, 1⟩ : Region 64) → allowed .load b) :
    World.Confined allowed w (peek point position w).2 :=
  World.touch_confined w h

theorem insert16_confined (value : BitVec 16) (w : World)
    (h : ∀ b, b ∈ (⟨cell point position, 2⟩ : Region 64) → allowed .store b) :
    World.Confined allowed w (insert16 point position value w) := by
  have hbyte := fun i hi => allowed_byte i hi (by decide) h
  unfold insert16
  exact (poke_confined _ _ (hbyte 1 (by decide))).trans (poke_confined _ _ (hbyte 0 (by decide)))

theorem insert64_confined (value : BitVec 64) (w : World)
    (h : ∀ b, b ∈ (⟨cell point position, 8⟩ : Region 64) → allowed .store b) :
    World.Confined allowed w (insert64 point position value w) := by
  have hbyte := fun i hi => allowed_byte i hi (by decide) h
  unfold insert64
  exact (poke_confined _ _ (hbyte 7 (by decide))).trans <|
    (poke_confined _ _ (hbyte 6 (by decide))).trans <|
    (poke_confined _ _ (hbyte 5 (by decide))).trans <|
    (poke_confined _ _ (hbyte 4 (by decide))).trans <|
    (poke_confined _ _ (hbyte 3 (by decide))).trans <|
    (poke_confined _ _ (hbyte 2 (by decide))).trans <|
    (poke_confined _ _ (hbyte 1 (by decide))).trans (poke_confined _ _ (hbyte 0 (by decide)))

theorem get16_confined (w : World)
    (h : ∀ b, b ∈ (⟨cell point position, 2⟩ : Region 64) → allowed .load b) :
    World.Confined allowed w (get16 point position w).2 := by
  have hbyte := fun i hi => allowed_byte i hi (by decide) h
  unfold get16
  exact (peek_confined _ (hbyte 1 (by decide))).trans (peek_confined _ (hbyte 0 (by decide)))

theorem get64_confined (w : World)
    (h : ∀ b, b ∈ (⟨cell point position, 8⟩ : Region 64) → allowed .load b) :
    World.Confined allowed w (get64 point position w).2 := by
  have hbyte := fun i hi => allowed_byte i hi (by decide) h
  unfold get64
  exact (peek_confined _ (hbyte 7 (by decide))).trans <|
    (peek_confined _ (hbyte 6 (by decide))).trans <|
    (peek_confined _ (hbyte 5 (by decide))).trans <|
    (peek_confined _ (hbyte 4 (by decide))).trans <|
    (peek_confined _ (hbyte 3 (by decide))).trans <|
    (peek_confined _ (hbyte 2 (by decide))).trans <|
    (peek_confined _ (hbyte 1 (by decide))).trans (peek_confined _ (hbyte 0 (by decide)))

@[simp] theorem get16_mem (w : World) : (get16 point position w).2.mem = w.mem := rfl

@[simp] theorem get64_mem (w : World) : (get64 point position w).2.mem = w.mem := rfl

end confined

end PacketPro
