import Minicomputer.Proofs.Instruction.Canonical

/-!
# Streams of words

Code is read word by word, and a long word takes the next one along as its data. The code of
canonical instructions is read as these instructions, and each word with a meaning has a canonical
one that is encoded to words of the same meaning.
-/

set_option autoImplicit false

namespace Minicomputer

/-- The words of some bytes, high byte first. A byte too many makes them no words. -/
def Word.ofByteList? : List Byte → Option (List Word)
  | [] => some []
  | [_] => none
  | high :: low :: rest => (ofByteList? rest).map (ofBytes high low :: ·)

theorem Word.ofByteList?_flatMap_bytes (ws : List Word) :
    ofByteList? (ws.flatMap bytes) = some ws := by
  induction ws with
  | nil => rfl
  | cons w ws ih =>
    show (ofByteList? (ws.flatMap bytes)).map (ofBytes w.high w.low :: ·) = _
    rw [ih, ofBytes_high_low]
    rfl

namespace Instruction

/-- The instructions of some words. A second word is taken exactly where the first one is long. -/
def ofWords? : List Word → Option (List Instruction)
  | [] => some []
  | w :: ws =>
    if isLong w then
      match ws with
      | [] => none
      | data :: rest => (decode w data).bind fun i => (ofWords? rest).map (i :: ·)
    else (decode w 0).bind fun i => (ofWords? ws).map (i :: ·)

theorem ofWords?_of_short {w : Word} (h : isLong w = false) (ws : List Word) :
    ofWords? (w :: ws) = (decode w 0).bind fun i => (ofWords? ws).map (i :: ·) := by
  cases ws with
  | nil => simp [ofWords?, h]
  | cons data rest => simp [ofWords?, h]

theorem ofWords?_of_long {w : Word} (h : isLong w = true) (data : Word) (ws : List Word) :
    ofWords? (w :: data :: ws) = (decode w data).bind fun i => (ofWords? ws).map (i :: ·) := by
  simp [ofWords?, h]

def ofCode? (code : List Byte) : Option (List Instruction) :=
  (Word.ofByteList? code).bind ofWords?

/-- The words of an instruction in their order. -/
def wordList (i : Instruction) : List Word := i.words.1 :: i.words.2.toList

theorem encode_eq_flatMap_bytes (i : Instruction) : i.encode = i.wordList.flatMap Word.bytes := by
  unfold encode wordList
  rcases i.words with ⟨first, _ | second⟩
  · exact (List.append_nil first.bytes).symm
  · show first.bytes ++ second.bytes = first.bytes ++ (second.bytes ++ [])
    rw [List.append_nil]

theorem flatMap_encode (is : List Instruction) :
    is.flatMap encode = (is.flatMap wordList).flatMap Word.bytes := by
  rw [List.flatMap_assoc]
  exact List.flatMap_congr fun i _ => encode_eq_flatMap_bytes i

/-- An instruction has a second word exactly if its first one is long. -/
theorem isSome_second_word (i : Instruction) : i.words.2.isSome = isLong i.words.1 := by
  have hl := encode_length i
  rw [isLong_words, ← hl]
  unfold encode
  rcases i.words with ⟨first, _ | second⟩ <;> rfl

theorem ofWords?_wordList_append {i : Instruction} (h : i.Canonical) (ws : List Word) :
    ofWords? (i.wordList ++ ws) = (ofWords? ws).map (i :: ·) := by
  have hd := decode_words h 0
  have hs := isSome_second_word i
  unfold wordList
  cases hw : i.words.2 with
  | none =>
    rw [hw] at hd hs
    show ofWords? (i.words.1 :: ws) = _
    rw [ofWords?_of_short hs.symm]
    rw [Option.getD_none] at hd
    rw [hd]
    rfl
  | some data =>
    rw [hw] at hd hs
    show ofWords? (i.words.1 :: data :: ws) = _
    rw [ofWords?_of_long hs.symm]
    rw [Option.getD_some] at hd
    rw [hd]
    rfl

theorem ofWords?_flatMap_wordList {is : List Instruction} (h : ∀ i ∈ is, i.Canonical) :
    ofWords? (is.flatMap wordList) = some is := by
  induction is with
  | nil => rfl
  | cons i is ih =>
    have hi : i.Canonical := h i List.mem_cons_self
    have his : ∀ j ∈ is, j.Canonical := fun j hj => h j (List.mem_cons_of_mem i hj)
    rw [List.flatMap_cons, ofWords?_wordList_append hi, ih his]
    rfl

theorem ofCode?_flatMap_encode {is : List Instruction} (h : ∀ i ∈ is, i.Canonical) :
    ofCode? (is.flatMap encode) = some is := by
  rw [ofCode?, flatMap_encode, Word.ofByteList?_flatMap_bytes]
  exact ofWords?_flatMap_wordList h

/-- The word that an instruction is decoded from is long exactly if the instruction is. -/
theorem isLong_of_decode {w data : Word} {i : Instruction} (h : decode w data = some i) :
    isLong w = (i.size == 4) := by
  rw [isLong_eq]
  unfold decode at h
  split at h
  · next h3 =>
    split at h <;> simp only [Option.some.injEq, reduceCtorEq] at h <;> subst h
    all_goals next h2 => simp [h3, h2, size]
  · next h3 =>
    split at h
    · next h2 =>
      obtain ⟨op, -, rfl⟩ := Option.map_eq_some_iff.mp h
      simp [h3, h2, size, ArithOp.immediateCode]
    · next h2 =>
      obtain ⟨op, -, rfl⟩ := Option.map_eq_some_iff.mp h
      have h2 : w.nibble 2 ≠ 15 := h2
      simp [h3, h2, size]
  · next h3 =>
    split at h
    · next h2 => cases h; simp [h3, h2, size]
    · next h2 => cases h; simp [h3, h2, size]
    · next h2 =>
      obtain ⟨op, -, rfl⟩ := Option.map_eq_some_iff.mp h
      simp [h3, h2, size]
    · next h2 => cases h; simp [h3, h2, size]
    · next h2 =>
      obtain ⟨op, -, rfl⟩ := Option.map_eq_some_iff.mp h
      have h2 : w.nibble 2 ≠ 15 := h2
      simp [h3, h2, size]
  · next h3 =>
    obtain ⟨⟨op, immediate⟩, -, h⟩ := Option.map_eq_some_iff.mp h
    dsimp only at h
    split at h <;> subst h <;> simp [h3, size]
  · next h3 =>
    obtain ⟨⟨op, withOffset⟩, -, rfl⟩ := Option.map_eq_some_iff.mp h
    simp [h3, size]
  · next h3 => cases h; simp [h3, size]
  · next h0 h1 h2 h3 h8 h9 =>
    -- The families that are left hold no long instruction.
    have h0 : w.nibble 3 ≠ 0 := h0
    have h1 : w.nibble 3 ≠ 1 := h1
    have h2 : w.nibble 3 ≠ 2 := h2
    have h8 : w.nibble 3 ≠ 8 := h8
    split at h
    · cases h; simp [h0, h1, h2, h8, size]
    · split at h
      · cases h
      · cases h; simp [h0, h1, h2, h8, size]

/-- Reading code inverts writing it on canonical instructions, and there are no others in any words:
what a word means is canonical, as long as the word says, and encoded to words that mean it. -/
theorem code_words_inverse :
    (∀ is : List Instruction, (∀ i ∈ is, i.Canonical) → ofCode? (is.flatMap encode) = some is) ∧
      ∀ (w data : Word) (i : Instruction), decode w data = some i →
        i.Canonical ∧ (isLong w = true ↔ i.size = 4) ∧
          ∀ other, decode i.words.1 (i.words.2.getD other) = some i := by
  constructor
  · intro is h
    exact ofCode?_flatMap_encode h
  · intro w data i h
    have hc := canonical_of_decode h
    have hl : isLong w = true ↔ i.size = 4 := by rw [isLong_of_decode h, beq_iff_eq]
    exact ⟨hc, hl, decode_words hc⟩

/-- Forms that share their words with others but for one field: constants, no offset, one
operand. -/
def escapes : List Instruction :=
  [access .li .t0 none 65535, access .lb .t0 (some .t1) 40, indexed .sbr .t0 .a0 none,
    arith .neg .t4 .t4, arithImm .mod .t0 65533, pushImm 1000 .sp, nop, jump .jz 4095]

/-- The source field of an operation with one operand does not matter, so its word is another one
than the word that the same instruction is encoded to. -/
theorem code_words_inverse_of_escapes :
    (∀ i ∈ escapes, i.Canonical) ∧ ofCode? (escapes.flatMap encode) = some escapes ∧
      decode 0x1C4F 0 = some (arith .not .t4 .t4) ∧ (arith .not .t4 .t4).words.1 = 0x1C40 ∧
        (arith .not .t4 .t4).Canonical ∧
          decode (arith .not .t4 .t4).words.1 0 = some (arith .not .t4 .t4) := by
  have hmeaning : ∀ i ∈ escapes, decode i.words.1 (i.words.2.getD 0) = some i := by decide
  have hc : ∀ i ∈ escapes, i.Canonical := fun i hi => canonical_of_decode (hmeaning i hi)
  have hd : decode 0x1C4F 0 = some (arith .not .t4 .t4) := by decide
  obtain ⟨canonical, -, again⟩ := code_words_inverse.2 _ _ _ hd
  exact ⟨hc, code_words_inverse.1 _ hc, hd, by decide, canonical, again 0⟩

end Instruction
end Minicomputer
