import Mathlib.Data.List.TakeWhile

/-! # C Strings and Allocated Blocks

    A C string is the bytes before its terminator. A block from `malloc` has a
    size and bytes that are unwritten at first; reading an unwritten byte, or
    past the end of a block, has no result, and neither has a copy that does
    not fit.

    * `strcpy` copies a string with its terminator to the front of a block.
    * `copyFrom` fills consecutive blocks of an array, one string each; its
      lemma says what every block of the array holds afterwards.
    * `Building` is a string that grows, with a log of the writes made for it.
      There a write that does not fit is recorded, and the string goes on.
-/

namespace CString

/-! ## Section 1: Strings and blocks -/

/-- A string: no byte of it is the terminator. -/
structure CStr where
  bytes : List (BitVec 8)
  nonzero : ∀ b ∈ bytes, b ≠ 0
  deriving DecidableEq

/-- A string literal, which ends at the first zero in it. -/
def CStr.literal (cs : List Char) : CStr where
  bytes := (cs.map fun c => BitVec.ofNat 8 c.toNat).takeWhile (· ≠ 0)
  nonzero := by
    intro b hb
    simpa using List.mem_takeWhile_imp hb

/-- An allocated block; `none` is a byte that was never written. -/
abbrev Block : Type := List (Option (BitVec 8))

def malloc (size : Nat) : Block := List.replicate size none

/-- Copy a string and its terminator, if there is room for both. -/
def strcpy (dst : Block) (src : CStr) : Option Block :=
  if src.bytes.length < dst.length then
    some ((src.bytes ++ [0]).map some ++ dst.drop (src.bytes.length + 1))
  else
    none

/-- The string that a block holds, as far as the first terminator. -/
def contents : Block → Option (List (BitVec 8))
  | [] => none
  | none :: _ => none
  | some b :: rest => if b = 0 then some [] else (contents rest).map (b :: ·)

theorem contents_append {bytes : List (BitVec 8)} (h : ∀ b ∈ bytes, b ≠ 0) (rest : Block) :
    contents ((bytes ++ [0]).map some ++ rest) = some bytes := by
  induction bytes with
  | nil => rfl
  | cons b bytes ih =>
    have hb : b ≠ 0 := h b (List.mem_cons_self ..)
    have htail := ih fun b' hb' => h b' (List.mem_cons_of_mem _ hb')
    simp only [List.cons_append, List.map_cons, contents, if_neg hb]
    rw [htail]
    rfl

@[simp] theorem contents_malloc (size : Nat) : contents (malloc size) = none := by
  cases size <;> rfl

/-- A copied string can be read back, and the block keeps its size. -/
theorem strcpy_spec {dst : Block} {src : CStr} (h : src.bytes.length < dst.length) :
    ∃ dst', strcpy dst src = some dst' ∧ contents dst' = some src.bytes ∧
      dst'.length = dst.length := by
  refine ⟨_, if_pos h, contents_append src.nonzero _, ?_⟩
  simp only [List.length_append, List.length_map, List.length_singleton, List.length_drop]
  omega

/-! ## Section 2: Arrays of blocks -/

/-- `strcpy(blocks[i], src)`. -/
def strcpyAt (blocks : List Block) (i : Nat) (src : CStr) : Option (List Block) := do
  let dst ← blocks[i]?
  let dst ← strcpy dst src
  return blocks.set i dst

/-- One copy after the other, from block `i` on. -/
def copyFrom : Nat → List CStr → List Block → Option (List Block)
  | _, [], blocks => some blocks
  | i, src :: srcs, blocks => (strcpyAt blocks i src).bind (copyFrom (i + 1) srcs)

/-- What the blocks of an array hold that these strings were copied to. -/
def written (srcs : List CStr) : List (Option (List (BitVec 8))) :=
  srcs.map fun src => some src.bytes

@[simp] theorem written_length (srcs : List CStr) : (written srcs).length = srcs.length :=
  List.length_map _

theorem written_append (srcs srcs' : List CStr) :
    written (srcs ++ srcs') = written srcs ++ written srcs' := List.map_append

theorem copyFrom_append (i : Nat) (srcs srcs' : List CStr) (blocks : List Block) :
    copyFrom i (srcs ++ srcs') blocks =
      (copyFrom i srcs blocks).bind (copyFrom (i + srcs.length) srcs') := by
  induction srcs generalizing i blocks with
  | nil => rfl
  | cons src srcs ih =>
    simp only [List.cons_append, copyFrom, List.length_cons, Option.bind_assoc]
    congr 1
    funext blocks'
    rw [ih, show i + 1 + srcs.length = i + (srcs.length + 1) by omega]

/-- `n` blocks of one size. -/
structure Sized (blocks : List Block) (n size : Nat) : Prop where
  count : blocks.length = n
  size : ∀ b ∈ blocks, b.length = size

theorem sized_malloc (n size : Nat) : Sized (List.replicate n (malloc size)) n size := by
  constructor
  · exact List.length_replicate
  · intro b hb
    rw [(List.mem_replicate.mp hb).2]
    exact List.length_replicate

section arrays
variable {blocks : List Block} {n size : Nat}

/-- **Step lemma**: one copy changes what one block holds. -/
theorem strcpyAt_spec (h : Sized blocks n size) {i : Nat} (hi : i < n) {src : CStr}
    (hsrc : src.bytes.length < size) :
    ∃ blocks', strcpyAt blocks i src = some blocks' ∧ Sized blocks' n size ∧
      blocks'.map contents = (blocks.map contents).set i (some src.bytes) := by
  have hi' : i < blocks.length := by
    rw [h.count]
    exact hi
  have hget : blocks[i]? = some blocks[i] := List.getElem?_eq_getElem hi'
  have hsize := h.size _ (List.getElem_mem hi')
  have hroom : src.bytes.length < blocks[i].length := by
    rw [hsize]
    exact hsrc
  -- one block is replaced by a block of the same size
  obtain ⟨dst, hcopy, hcontents, hlen⟩ := strcpy_spec hroom
  refine ⟨blocks.set i dst, ?_, ⟨?_, ?_⟩, ?_⟩
  · simp [strcpyAt, hget, hcopy]
  · rw [List.length_set]
    exact h.count
  · intro b hb
    rcases List.mem_or_eq_of_mem_set hb with hold | rfl
    · exact h.size b hold
    · rw [hlen, hsize]
  · rw [List.map_set, hcontents]

theorem strcpyAt_eq_none (h : Sized blocks n size) {i : Nat} (hi : i < n) {src : CStr}
    (hsrc : ¬ src.bytes.length < size) : strcpyAt blocks i src = none := by
  have hi' : i < blocks.length := by
    rw [h.count]
    exact hi
  have hroom : ¬ src.bytes.length < blocks[i].length := by
    rw [h.size _ (List.getElem_mem hi')]
    exact hsrc
  have hget : blocks[i]? = some blocks[i] := List.getElem?_eq_getElem hi'
  simp [strcpyAt, hget, strcpy, hroom]

/-- **Run lemma**: consecutive copies fill a stretch of the array. -/
theorem copyFrom_spec (h : Sized blocks n size) {i : Nat} {srcs : List CStr}
    (hi : i + srcs.length ≤ n) (hsrcs : ∀ src ∈ srcs, src.bytes.length < size) :
    ∃ blocks', copyFrom i srcs blocks = some blocks' ∧ Sized blocks' n size ∧
      blocks'.map contents = (blocks.map contents).take i ++ written srcs ++
        (blocks.map contents).drop (i + srcs.length) := by
  induction srcs generalizing i blocks with
  | nil => exact ⟨blocks, rfl, h, by simp [written]⟩
  | cons src srcs ih =>
    rw [List.length_cons] at hi
    obtain ⟨blocks₁, hcopy, hsized, hview⟩ :=
      strcpyAt_spec h (show i < n by omega) (hsrcs src (List.mem_cons_self ..))
    -- the later copies leave the blocks before `i + 1` alone
    obtain ⟨blocks', hrest, hsized', hview'⟩ := ih hsized (i := i + 1) (by omega)
      fun src' hsrc' => hsrcs src' (List.mem_cons_of_mem _ hsrc')
    refine ⟨blocks', ?_, hsized', ?_⟩
    · rw [copyFrom, hcopy]
      exact hrest
    · have hlen : i < (blocks.map contents).length := by
        rw [List.length_map, h.count]
        omega
      rw [hview', hview, List.take_add_one, List.getElem?_set_self hlen,
        List.take_set_of_le (Nat.le_refl i), List.drop_set_of_lt (by omega)]
      simp only [Option.toList_some, written, List.map_cons, List.length_cons, List.append_assoc,
        List.nil_append, List.cons_append]
      rw [show i + 1 + srcs.length = i + (srcs.length + 1) by omega]

/-- The copies go through exactly when each string fits in a block. -/
theorem copyFrom_isSome_iff (h : Sized blocks n size) {i : Nat} {srcs : List CStr}
    (hi : i + srcs.length ≤ n) :
    (copyFrom i srcs blocks).isSome ↔ ∀ src ∈ srcs, src.bytes.length < size := by
  constructor
  · intro hsome
    induction srcs generalizing i blocks with
    | nil => exact nofun
    | cons src srcs ih =>
      rw [List.length_cons] at hi
      obtain ⟨done, hdone⟩ := Option.isSome_iff_exists.mp hsome
      obtain ⟨blocks₁, hcopy, hrest⟩ := Option.bind_eq_some_iff.mp hdone
      have hsrc : src.bytes.length < size := by
        by_contra hlong
        rw [strcpyAt_eq_none h (show i < n by omega) hlong] at hcopy
        exact absurd hcopy nofun
      obtain ⟨blocks₁', hcopy', hsized, -⟩ := strcpyAt_spec h (show i < n by omega) hsrc
      rw [hcopy', Option.some.injEq] at hcopy
      rw [hcopy] at hsized
      have htail := ih hsized (i := i + 1) (by omega) (Option.isSome_iff_exists.mpr ⟨done, hrest⟩)
      exact List.forall_mem_cons.mpr ⟨hsrc, htail⟩
  · intro hshort
    obtain ⟨done, hdone, -, -⟩ := copyFrom_spec h hi hshort
    rw [hdone]
    rfl

end arrays

/-! ## Section 3: Growing strings and the writes for them -/

/-- One string after the other. -/
def CStr.append (s t : CStr) : CStr where
  bytes := s.bytes ++ t.bytes
  nonzero := by
    intro b hb
    rcases List.mem_append.mp hb with hs | ht
    · exact s.nonzero b hs
    · exact t.nonzero b ht

/-- A write: the bytes allocated from its first byte on, and the bytes that
    it writes, a terminator included. -/
structure Write where
  room : Nat
  written : Nat
  deriving DecidableEq

/-- At most `slack` bytes are written past the end. -/
def Write.Within (slack : Nat) (w : Write) : Prop := w.written ≤ w.room + slack

instance (slack : Nat) (w : Write) : Decidable (w.Within slack) :=
  inferInstanceAs (Decidable (_ ≤ _))

/-- A string so far, and the writes made so far. -/
structure Building where
  output : CStr
  writes : List Write

namespace Building

def Within (slack : Nat) (b : Building) : Prop := ∀ w ∈ b.writes, w.Within slack

abbrev Fit (b : Building) : Prop := b.Within 0

/-- A write to some other block. -/
def write (b : Building) (w : Write) : Building := { b with writes := b.writes ++ [w] }

@[simp] theorem write_output (b : Building) (w : Write) : (b.write w).output = b.output := rfl

@[simp] theorem write_within (slack : Nat) (b : Building) (w : Write) :
    (b.write w).Within slack ↔ b.Within slack ∧ w.Within slack := by
  simp only [Within, write, List.forall_mem_append, List.forall_mem_singleton]

section steps
variable {ι : Type} {step : Building → ι → Building}

/-- **Run rule**, the string: each step appends a text of its own. -/
theorem foldl_output {text : ι → CStr}
    (h : ∀ b i, (step b i).output = b.output.append (text i)) (b : Building) (is : List ι) :
    (is.foldl step b).output.bytes = b.output.bytes ++ is.flatMap fun i => (text i).bytes := by
  induction is generalizing b with
  | nil => simp
  | cons i is ih =>
    rw [List.foldl_cons, ih, h, List.flatMap_cons, ← List.append_assoc]
    rfl

/-- **Run rule**, the writes: each step adds a condition of its own. -/
theorem foldl_within {slack : Nat} {good : ι → Prop}
    (h : ∀ b i, (step b i).Within slack ↔ b.Within slack ∧ good i) (b : Building) (is : List ι) :
    (is.foldl step b).Within slack ↔ b.Within slack ∧ ∀ i ∈ is, good i := by
  induction is generalizing b with
  | nil => simp
  | cons i is ih =>
    rw [List.foldl_cons, ih, h, List.forall_mem_cons, and_assoc]

end steps

end Building

end CString
