import PacketPro.Framework.Layout
import Mathlib.Control.Monad.Basic

/-! # Codecs

    A codec says how the values of a type are written as bytes, and how one is
    read from the front of some bytes. What was written is read back, whatever
    follows it (`Codec.decode_encode`).

    * **Codecs**: words of any size in both byte orders, and arrays with their
      length in front. Both are exact: nothing but what was written is accepted.
    * **Programs**: `Reads` and `Follows` relate a program that reads from a
      buffer to a decoder, `Writes` and `Checked` one that writes to its bytes.
      All are kept by sequencing and by loops, so a program that goes field by
      field is compared with a format field by field.
-/

open ByteMem

namespace Codecs

abbrev Bytes : Type := List (BitVec 8)

/-- Reads a value from the front of some bytes and leaves the rest. -/
abbrev Decoder (α : Type) : Type := StateT Bytes Option α

/-- `valid` says which values can be written. -/
structure Codec (α : Type) where
  encode : α → Bytes
  decode : Decoder α
  valid : α → Prop
  decode_encode : ∀ a rest, valid a → decode.run (encode a ++ rest) = some (a, rest)

variable {α β σ ε : Type}

/-- A decoder that goes on after a value that was written. -/
theorem Codec.run_bind (c : Codec α) {a : α} (h : c.valid a) (f : α → Decoder β) (rest : Bytes) :
    (c.decode >>= f).run (c.encode a ++ rest) = (f a).run rest := by
  rw [StateT.run_bind, c.decode_encode a rest h]
  rfl

/-- The same format for a type whose values stand for values of another one. -/
def Codec.map (c : Codec α) (f : α → β) (g : β → α) (hfg : ∀ b, f (g b) = b) : Codec β where
  encode b := c.encode (g b)
  decode := do
    let a ← c.decode
    pure (f a)
  valid b := c.valid (g b)
  decode_encode b rest h := by
    rw [c.run_bind h, hfg]
    rfl

/-! ## Section 1: Words -/

inductive Order where
  | big
  | little
  deriving DecidableEq, Repr

def Order.bytes : Order → Nat → Nat → Bytes
  | .big, n, v => (bytesLE n v).reverse
  | .little, n, v => bytesLE n v

def Order.number : Order → Bytes → Nat
  | .big, bytes => ofBytesBE bytes
  | .little, bytes => ofBytesLE bytes

theorem bytesLE_length (n v : Nat) : (bytesLE n v).length = n := by
  induction n generalizing v with
  | zero => rfl
  | succ n ih => rw [bytesLE, List.length_cons, ih]

theorem Order.bytes_length (order : Order) (n v : Nat) : (order.bytes n v).length = n := by
  cases order with
  | big => rw [Order.bytes, List.length_reverse, bytesLE_length]
  | little => exact bytesLE_length n v

theorem Order.number_bytes (order : Order) {n v : Nat} (hv : v < 256 ^ n) :
    order.number (order.bytes n v) = v := by
  cases order with
  | big => rw [Order.number, Order.bytes, ofBytesBE, List.reverse_reverse, ofBytesLE_bytesLE hv]
  | little => exact ofBytesLE_bytesLE hv

theorem Order.bytes_number (order : Order) (bytes : Bytes) :
    order.bytes bytes.length (order.number bytes) = bytes := by
  cases order with
  | big =>
    have h := bytesLE_ofBytesLE bytes.reverse
    rw [List.length_reverse] at h
    rw [Order.number, Order.bytes, ofBytesBE, h, List.reverse_reverse]
  | little => exact bytesLE_ofBytesLE bytes

theorem Order.number_lt (order : Order) (bytes : Bytes) :
    order.number bytes < 256 ^ bytes.length := by
  cases order with
  | big =>
    have h := ofBytesLE_lt bytes.reverse
    rwa [List.length_reverse] at h
  | little => exact ofBytesLE_lt bytes

/-- Take `n` bytes if there are as many. -/
def takeBytes (n : Nat) : Decoder Bytes := fun bytes =>
  if n ≤ bytes.length then some (bytes.take n, bytes.drop n) else none

theorem takeBytes_append (bytes rest : Bytes) :
    (takeBytes bytes.length).run (bytes ++ rest) = some (bytes, rest) := by
  simp [takeBytes, StateT.run]

/-- Words of `n` bytes. -/
def word (order : Order) (n : Nat) : Codec (BitVec (8 * n)) where
  encode v := order.bytes n v.toNat
  decode := do
    let bytes ← takeBytes n
    pure (BitVec.ofNat (8 * n) (order.number bytes))
  valid _ := True
  decode_encode v rest _ := by
    have hlt : v.toNat < 256 ^ n := by
      have hpow : 256 ^ n = 2 ^ (8 * n) := by rw [Nat.pow_mul]
      rw [hpow]
      exact v.isLt
    have htake : (takeBytes n).run (order.bytes n v.toNat ++ rest) =
        some (order.bytes n v.toNat, rest) := by
      have h := takeBytes_append (order.bytes n v.toNat) rest
      rwa [order.bytes_length] at h
    rw [StateT.run_bind, htake]
    simp [order.number_bytes hlt]

/-! ## Section 2: Arrays -/

/-- Run a program `n` times and collect the results. -/
def times {m : Type → Type} [Monad m] (x : m α) : Nat → m (List α)
  | 0 => pure []
  | n + 1 => do
    let a ← x
    let as ← times x n
    pure (a :: as)

theorem times_decode (c : Codec α) (as : List α) (h : ∀ a ∈ as, c.valid a) (rest : Bytes) :
    (times c.decode as.length).run (as.flatMap c.encode ++ rest) = some (as, rest) := by
  induction as with
  | nil => rfl
  | cons a as ih =>
    rw [List.forall_mem_cons] at h
    rw [List.flatMap_cons, List.append_assoc, List.length_cons, times, c.run_bind h.1,
      StateT.run_bind, ih h.2]
    rfl

/-- Arrays of fewer than `bound` elements, with their length in front as a word
    of `n` bytes. -/
def array (order : Order) (n bound : Nat) (hbound : bound ≤ 2 ^ (8 * n)) (c : Codec α) :
    Codec (List α) where
  encode as := (word order n).encode (BitVec.ofNat _ as.length) ++ as.flatMap c.encode
  decode := do
    let size ← (word order n).decode
    if size.toNat < bound then times c.decode size.toNat else fun _ => none
  valid as := as.length < bound ∧ ∀ a ∈ as, c.valid a
  decode_encode as rest h := by
    have hsize : (BitVec.ofNat (8 * n) as.length).toNat = as.length := by
      rw [BitVec.toNat_ofNat, Nat.mod_eq_of_lt (Nat.lt_of_lt_of_le h.1 hbound)]
    rw [List.append_assoc, Codec.run_bind _ trivial, hsize, if_pos h.1]
    exact times_decode c as h.2 rest

/-- An array of words is a block of bytes. -/
theorem times_word (order : Order) (n k : Nat) {bytes rest : Bytes} {as : List (BitVec (8 * n))}
    (h : (times (word order n).decode k).run bytes = some (as, rest)) :
    n * k ≤ bytes.length ∧ rest = bytes.drop (n * k) ∧
      as = (List.range k).map fun i =>
        BitVec.ofNat (8 * n) (order.number ((bytes.drop (n * i)).take n)) := by
  induction k generalizing bytes as with
  | zero =>
    cases h
    simp
  | succ k ih =>
    obtain ⟨⟨a, rest'⟩, ha, htail⟩ := Option.bind_eq_some_iff.mp h
    obtain ⟨⟨as', rest''⟩, has, hpure⟩ := Option.bind_eq_some_iff.mp htail
    cases hpure
    by_cases hle : n ≤ bytes.length
    · simp only [word, takeBytes, bind, StateT.bind, if_pos hle, Option.bind_some] at ha
      cases ha
      obtain ⟨hlen, hrest, hvalues⟩ := ih has
      rw [List.length_drop] at hlen
      refine ⟨by rw [Nat.mul_succ]; omega, ?_, ?_⟩
      · rw [hrest, List.drop_drop, Nat.mul_succ, Nat.add_comm]
      · rw [List.range_succ_eq_map, List.map_cons, List.map_map, hvalues]
        simp only [Nat.mul_zero, List.drop_zero, List.drop_drop]
        congr 1
        apply List.map_congr_left
        intro i _
        simp only [Function.comp, Nat.mul_succ, Nat.add_comm]
    · simp only [word, takeBytes, bind, StateT.bind, if_neg hle] at ha
      cases ha

theorem times_map (d : Decoder α) (f : α → β) (n : Nat) :
    times (d >>= fun a => pure (f a)) n = times d n >>= fun as => pure (as.map f) := by
  induction n with
  | zero => rfl
  | succ n ih => simp only [times, ih, bind_assoc, pure_bind, List.map_cons]

theorem array_map (order : Order) (n bound : Nat) (hbound : bound ≤ 2 ^ (8 * n)) (c : Codec α)
    (f : α → β) (g : β → α) (hfg : ∀ b, f (g b) = b) :
    (array order n bound hbound (c.map f g hfg)).decode =
      (array order n bound hbound c).decode >>= fun as => pure (as.map f) := by
  simp only [array, Codec.map, bind_assoc]
  congr 1
  funext size
  by_cases hsize : size.toNat < bound
  · rw [if_pos hsize, if_pos hsize, times_map]
  · rw [if_neg hsize, if_neg hsize]
    rfl

/-! ## Section 3: What a decoder accepts -/

/-- The decoder accepts nothing but what `encode` writes. -/
def Codec.Exact (c : Codec α) : Prop :=
  ∀ a bytes rest, c.decode.run bytes = some (a, rest) → c.valid a ∧ bytes = c.encode a ++ rest

theorem word_exact (order : Order) (n : Nat) : (word order n).Exact := by
  intro v bytes rest h
  by_cases hle : n ≤ bytes.length
  · simp only [word, takeBytes, StateT.run, bind, StateT.bind, if_pos hle, Option.bind_some] at h
    cases h
    have hlen : (bytes.take n).length = n := List.length_take_of_le hle
    have hlt : order.number (bytes.take n) < 2 ^ (8 * n) := by
      have h := order.number_lt (bytes.take n)
      rwa [hlen, show (256 : Nat) = 2 ^ 8 from rfl, ← Nat.pow_mul] at h
    have hback := order.bytes_number (bytes.take n)
    rw [hlen] at hback
    refine ⟨trivial, ?_⟩
    simp only [word, BitVec.toNat_ofNat, Nat.mod_eq_of_lt hlt, hback, List.take_append_drop]
  · simp only [word, takeBytes, StateT.run, bind, StateT.bind, if_neg hle] at h
    cases h

theorem Codec.Exact.map {c : Codec α} (hc : c.Exact) {f : α → β} {g : β → α}
    (hfg : ∀ b, f (g b) = b) (hgf : ∀ a, g (f a) = a) : (c.map f g hfg).Exact := by
  intro b bytes rest h
  obtain ⟨⟨a, rest'⟩, ha, hpure⟩ := Option.bind_eq_some_iff.mp h
  cases hpure
  simp only [Codec.map, hgf]
  exact hc a bytes rest ha

theorem times_exact {c : Codec α} (hc : c.Exact) {n : Nat} {as : List α} {bytes rest : Bytes}
    (h : (times c.decode n).run bytes = some (as, rest)) :
    as.length = n ∧ (∀ a ∈ as, c.valid a) ∧ bytes = as.flatMap c.encode ++ rest := by
  induction n generalizing as bytes with
  | zero =>
    cases h
    simp
  | succ n ih =>
    obtain ⟨⟨a, rest'⟩, ha, htail⟩ := Option.bind_eq_some_iff.mp h
    obtain ⟨⟨as', rest''⟩, has, hpure⟩ := Option.bind_eq_some_iff.mp htail
    cases hpure
    obtain ⟨hvalid, hbytes⟩ := hc a bytes rest' ha
    obtain ⟨hlen, hvalids, hrest⟩ := ih has
    refine ⟨by rw [List.length_cons, hlen], List.forall_mem_cons.mpr ⟨hvalid, hvalids⟩, ?_⟩
    rw [hbytes, hrest, List.flatMap_cons, List.append_assoc]

theorem array_exact (order : Order) (n bound : Nat) (hbound : bound ≤ 2 ^ (8 * n)) {c : Codec α}
    (hc : c.Exact) : (array order n bound hbound c).Exact := by
  intro as bytes rest h
  obtain ⟨⟨size, rest'⟩, hsize, helements⟩ := Option.bind_eq_some_iff.mp h
  by_cases hlt : size.toNat < bound
  · simp only [if_pos hlt] at helements
    obtain ⟨-, hfront⟩ := word_exact order n size bytes rest' hsize
    obtain ⟨hlen, hvalid, hrest⟩ := times_exact hc helements
    refine ⟨⟨by rw [hlen]; exact hlt, hvalid⟩, ?_⟩
    have hword : BitVec.ofNat (8 * n) as.length = size := by
      rw [hlen, BitVec.ofNat_toNat, BitVec.setWidth_eq]
    simp only [array, hword, List.append_assoc]
    rw [hfront, hrest]
  · simp only [if_neg hlt] at helements
    cases helements

/-! ## Section 4: Bytes in memory -/

/-- The memory after some bytes were stored from `start` on. -/
def overwrite (cells : Int → BitVec 8) (start : Int) (bytes : Bytes) : Int → BitVec 8 := fun i =>
  if start ≤ i then (bytes[(i - start).toNat]?).getD (cells i) else cells i

/-- The `n` bytes from `start` on. -/
def window (cells : Int → BitVec 8) (start : Int) (n : Nat) : Bytes :=
  (List.range n).map fun (i : Nat) => cells (start + i)

section cells
variable (cells : Int → BitVec 8) (start : Int)

@[simp] theorem length_window (n : Nat) : (window cells start n).length = n := by
  simp [window]

theorem overwrite_nil : overwrite cells start [] = cells := by
  funext i
  simp [overwrite]

theorem overwrite_append (bytes bytes' : Bytes) :
    overwrite (overwrite cells start bytes) (start + bytes.length) bytes' =
      overwrite cells start (bytes ++ bytes') := by
  funext i
  simp only [overwrite]
  by_cases hnew : start + bytes.length ≤ i
  · rw [if_pos hnew, if_pos (by omega), if_pos (by omega),
      List.getElem?_eq_none (l := bytes) (by omega), List.getElem?_append_right (by omega),
      Option.getD_none]
    congr 3
    omega
  · rw [if_neg hnew]
    by_cases hold : start ≤ i
    · rw [if_pos hold, if_pos hold, List.getElem?_append_left (by omega)]
    · rw [if_neg hold, if_neg hold]

theorem overwrite_of_not_mem {bytes : Bytes} {i : Int} (h : i < start ∨ start + bytes.length ≤ i) :
    overwrite cells start bytes i = cells i := by
  by_cases hi : start ≤ i
  · rw [overwrite, if_pos hi, List.getElem?_eq_none (by omega), Option.getD_none]
  · rw [overwrite, if_neg hi]

theorem window_overwrite (bytes : Bytes) :
    window (overwrite cells start bytes) start bytes.length = bytes := by
  apply List.ext_getElem?
  intro i
  rw [window, List.getElem?_map]
  by_cases hi : i < bytes.length
  · rw [List.getElem?_range hi, Option.map_some, overwrite, if_pos (by omega)]
    simp [hi]
  · rw [List.getElem?_eq_none (by simpa using hi), List.getElem?_eq_none (by omega)]
    rfl

theorem window_add (m n : Nat) :
    window cells start (m + n) = window cells start m ++ window cells (start + m) n := by
  rw [window, List.range_add, List.map_append, List.map_map]
  congr 1
  apply List.map_congr_left
  intro i _
  simp only [Function.comp, Nat.cast_add, Int.add_assoc]

end cells

/-! ## Section 5: Programs that read -/

/-- How a buffer is looked at: the bytes that are still to be read, and what
    reading does not change. -/
structure View (σ : Type) where
  rest : σ → Bytes
  keeps : σ → σ → Prop
  keeps_refl : ∀ s, keeps s s
  keeps_trans : ∀ s s' s'', keeps s s' → keeps s' s'' → keeps s s''

/-- Where the decoder succeeds, the program returns the same value and leaves
    the same rest. -/
def Reads (v : View σ) (x : StateT σ (Except ε) α) (d : Decoder α) : Prop :=
  ∀ s a rest, d.run (v.rest s) = some (a, rest) →
    ∃ s', x.run s = .ok (a, s') ∧ v.rest s' = rest ∧ v.keeps s s'

/-- Where the decoder fails, the program throws. -/
def Refuses (v : View σ) (x : StateT σ (Except ε) α) (d : Decoder α) : Prop :=
  ∀ s, d.run (v.rest s) = none → ∃ e, x.run s = .error e

/-- The program and the decoder agree on what they accept. -/
structure Follows (v : View σ) (x : StateT σ (Except ε) α) (d : Decoder α) : Prop where
  reads : Reads v x d
  refuses : Refuses v x d

theorem run_bind_ok {x : StateT σ (Except ε) α} {s s' : σ} {a : α} (h : x.run s = .ok (a, s'))
    (f : α → StateT σ (Except ε) β) : (x >>= f).run s = (f a).run s' := by
  rw [StateT.run_bind, h]
  rfl

section rules
variable {v : View σ}

theorem Reads.pure (a : α) : Reads v (Pure.pure a : StateT σ (Except ε) α) (Pure.pure a) := by
  rintro s b rest ⟨⟩
  exact ⟨s, rfl, rfl, v.keeps_refl s⟩

theorem Reads.bind {x : StateT σ (Except ε) α} {d : Decoder α} {f : α → StateT σ (Except ε) β}
    {e : α → Decoder β} (hx : Reads v x d) (hf : ∀ a, Reads v (f a) (e a)) :
    Reads v (x >>= f) (d >>= e) := by
  intro s b rest h
  rw [StateT.run_bind, Option.bind_eq_bind, Option.bind_eq_some_iff] at h
  obtain ⟨⟨a, rest'⟩, ha, hb⟩ := h
  obtain ⟨s', hxs, hrest, hkeeps⟩ := hx s a rest' ha
  rw [← hrest] at hb
  obtain ⟨s'', hfs, hrest', hkeeps'⟩ := hf a s' b rest hb
  refine ⟨s'', ?_, hrest', v.keeps_trans _ _ _ hkeeps hkeeps'⟩
  rw [run_bind_ok hxs, hfs]

theorem Follows.pure (a : α) :
    Follows v (Pure.pure a : StateT σ (Except ε) α) (Pure.pure a) := by
  refine ⟨Reads.pure a, ?_⟩
  intro s h
  cases h

theorem Follows.bind {x : StateT σ (Except ε) α} {d : Decoder α} {f : α → StateT σ (Except ε) β}
    {e : α → Decoder β} (hx : Follows v x d) (hf : ∀ a, Follows v (f a) (e a)) :
    Follows v (x >>= f) (d >>= e) := by
  refine ⟨hx.reads.bind fun a => (hf a).reads, ?_⟩
  intro s h
  rw [StateT.run_bind, Option.bind_eq_bind, Option.bind_eq_none_iff] at h
  cases hd : d.run (v.rest s) with
  | none =>
    obtain ⟨err, hxs⟩ := hx.refuses s hd
    exact ⟨err, by rw [StateT.run_bind, hxs]; rfl⟩
  | some result =>
    obtain ⟨a, rest⟩ := result
    obtain ⟨s', hxs, hrest, -⟩ := hx.reads s a rest hd
    have hnone := h (a, rest) hd
    rw [← hrest] at hnone
    obtain ⟨err, hfs⟩ := (hf a).refuses s' hnone
    exact ⟨err, by rw [run_bind_ok hxs, hfs]⟩

theorem Follows.times {x : StateT σ (Except ε) α} {d : Decoder α} (hx : Follows v x d)
    (n : Nat) : Follows v (times x n) (times d n) := by
  induction n with
  | zero => exact Follows.pure []
  | succ n ih => exact hx.bind fun a => ih.bind fun as => Follows.pure (a :: as)

end rules

/-! ## Section 6: Programs that write -/

/-- How a buffer grows: whether there is room for so many bytes, and the buffer
    with some bytes more. -/
structure Sink (σ : Type) where
  room : σ → Nat → Prop
  append : σ → Bytes → σ
  append_nil : ∀ s, append s [] = s
  append_append : ∀ s bytes bytes', room s (bytes.length + bytes'.length) →
    append (append s bytes) bytes' = append s (bytes ++ bytes')
  room_append : ∀ s bytes n, room s (bytes.length + n) ↔
    room s bytes.length ∧ room (append s bytes) n

/-- With enough room, the program writes these bytes and nothing else. -/
def Writes (k : Sink σ) (x : StateT σ (Except ε) Unit) (bytes : Bytes) : Prop :=
  ∀ s, k.room s bytes.length → x.run s = .ok ((), k.append s bytes)

/-- The program also throws `e` without enough room for all its bytes. -/
structure Checked (k : Sink σ) (x : StateT σ (Except ε) Unit) (bytes : Bytes) (e : ε) : Prop where
  writes : Writes k x bytes
  overflows : ∀ s, ¬k.room s bytes.length → x.run s = .error e

section rules
variable {k : Sink σ} {x y : StateT σ (Except ε) Unit} {bytes bytes' : Bytes} {e : ε}

theorem Writes.pure : Writes k (Pure.pure () : StateT σ (Except ε) Unit) [] := by
  intro s _
  rw [k.append_nil]
  rfl

theorem Writes.bind (hx : Writes k x bytes) (hy : Writes k y bytes') :
    Writes k (x >>= fun _ => y) (bytes ++ bytes') := by
  intro s hroom
  rw [List.length_append] at hroom
  obtain ⟨hfirst, hsecond⟩ := (k.room_append s bytes _).mp hroom
  rw [run_bind_ok (hx s hfirst), hy _ hsecond, k.append_append s bytes bytes' hroom]

theorem Checked.bind (hx : Checked k x bytes e) (hy : Checked k y bytes' e) :
    Checked k (x >>= fun _ => y) (bytes ++ bytes') e := by
  refine ⟨hx.writes.bind hy.writes, ?_⟩
  intro s hroom
  rw [List.length_append] at hroom
  by_cases hfirst : k.room s bytes.length
  · rw [run_bind_ok (hx.writes s hfirst)]
    exact hy.overflows _ fun hsecond => hroom ((k.room_append s bytes _).mpr ⟨hfirst, hsecond⟩)
  · rw [StateT.run_bind, hx.overflows s hfirst]
    rfl

theorem Checked.forM {f : α → StateT σ (Except ε) Unit} {encode : α → Bytes}
    (hf : ∀ a, Checked k (f a) (encode a) e) (hroom : ∀ s, k.room s 0) (as : List α) :
    Checked k (as.forM f) (as.flatMap encode) e := by
  induction as with
  | nil => exact ⟨Writes.pure, fun s h => absurd (hroom s) h⟩
  | cons a as ih => exact (hf a).bind ih

end rules

end Codecs
