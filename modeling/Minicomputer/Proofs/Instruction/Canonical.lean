import Mathlib
import Minicomputer.Instruction.Encoding

/-!
# Canonical instructions

An instruction is canonical when each of its fields has a place in its words. On canonical
instructions decoding inverts encoding, and a sweep that follows the decoded sizes through the code
of a list of them finds the list again.
-/

set_option autoImplicit false

namespace Minicomputer

namespace Word

@[simp] theorem nibble_ofNibbles_three (a b c d : Nat) :
    (ofNibbles a b c d).nibble 3 = a % 16 := by
  simp only [nibble, toNat_ofNibbles]
  omega

@[simp] theorem nibble_ofNibbles_two (a b c d : Nat) :
    (ofNibbles a b c d).nibble 2 = b % 16 := by
  simp only [nibble, toNat_ofNibbles]
  omega

@[simp] theorem nibble_ofNibbles_one (a b c d : Nat) :
    (ofNibbles a b c d).nibble 1 = c % 16 := by
  simp only [nibble, toNat_ofNibbles]
  omega

@[simp] theorem nibble_ofNibbles_zero (a b c d : Nat) :
    (ofNibbles a b c d).nibble 0 = d % 16 := by
  simp only [nibble, toNat_ofNibbles]
  omega

@[simp] theorem low_ofNibbles (b : Byte) (x y : Nat) :
    (ofNibbles x y (b.toNat / 16) b.toNat).low = b := by
  have h := UInt8.toNat_lt b
  apply UInt8.toNat_inj.mp
  simp only [low, UInt8.toNat_ofNat', toNat_ofNibbles]
  omega

end Word

namespace Register

theorem index_lt_of_readable {r : Register} (h : r.isReadable = true) : r.index.val < 16 := by
  have := of_decide_eq_true h
  have hp : Register.pc.index.val = 15 := rfl
  omega

theorem readable_of_writeable {r : Register} (h : r.isWriteable = true) : r.isReadable = true := by
  have := of_decide_eq_true h
  exact decide_eq_true (by omega)

end Register

namespace Instruction

/-- Each field of the instruction has a place in its words. -/
def Canonical : Instruction → Prop
  | sys _ | debug _ | nop => True
  | mv target source | mcp source target _ => target.isReadable ∧ source.isReadable
  | inc target amount | dec target amount => target.isReadable ∧ amount.toNat < 16
  | seti target value => target.isReadable ∧ value.toNat < 16
  | arith op target source =>
    target.isReadable ∧ source.isReadable ∧ (op.isUnary → source = target)
  | arithImm _ target _ => target.isReadable
  | push reg stack | pop reg stack => reg.isReadable ∧ stack.isReadable
  | rearrange _ stack | sop _ stack | pushImm _ stack => stack.isReadable
  | test _ lhs rhs => lhs.isReadable ∧ rhs.isReadable
  | testImm _ lhs value => lhs.isReadable ∧ value.toNat < 16
  | access op reg offset _ =>
    reg.isReadable ∧ (∀ r ∈ offset, r.isReadable) ∧ (op = .li → offset = none)
  | indexed _ reg base offset =>
    reg.isReadable ∧ base.isReadable ∧ ∀ r ∈ offset, r.isReadable ∧ r ≠ .pc
  | jumpReg reg => reg.isReadable
  | jump _ target => target.toNat ≤ maxJumpTarget

/-- A register in its place in a word is read back. -/
theorem ofNibble_nib {r : Register} (h : r.isReadable = true) : .ofNibble (nib r % 16) = r := by
  rw [nib, Nat.mod_eq_of_lt (Register.index_lt_of_readable h)]
  exact Register.ofNibble_index h

theorem decode_words {i : Instruction} (h : i.Canonical) (data : Word) :
    decode i.words.1 (i.words.2.getD data) = some i := by
  cases i with
  | sys call => simp [words, decode]
  | mv target source => simp [words, decode, reg, ofNibble_nib h.1, ofNibble_nib h.2]
  | inc target amount => simp [words, decode, reg, ofNibble_nib h.1, h.2, Nat.mod_eq_of_lt]
  | dec target amount => simp [words, decode, reg, ofNibble_nib h.1, h.2, Nat.mod_eq_of_lt]
  | seti target value => simp [words, decode, reg, ofNibble_nib h.1, h.2, Nat.mod_eq_of_lt]
  | mcp source target size => simp [words, decode, reg, ofNibble_nib h.1, ofNibble_nib h.2]
  | debug index => simp [words, decode]
  | nop => simp [words, decode]
  | arith op target source =>
    obtain ⟨ht, hs, hu⟩ := h
    cases op <;> simp_all [words, decode, reg, ofNibble_nib, ArithOp.code, ArithOp.isUnary,
      ArithOp.immediateCode, ArithOp.ofCode?, ArithOp.all]
  | arithImm op target value =>
    have hop := op.code_lt
    have hm : op.code % 16 = op.code := Nat.mod_eq_of_lt (by omega)
    simp [words, decode, reg, ofNibble_nib h, ArithOp.immediateCode, hm, ArithOp.ofCode?_code]
  | push source stack =>
    obtain ⟨hs, hk⟩ := h
    simp [words, decode, reg, StackOp.pushCode, ofNibble_nib hs, ofNibble_nib hk]
  | pop target stack =>
    obtain ⟨ht, hk⟩ := h
    simp [words, decode, reg, StackOp.popCode, ofNibble_nib ht, ofNibble_nib hk]
  | rearrange op stack =>
    cases op <;>
      simp [words, decode, reg, ofNibble_nib h, StackOp.code, StackOp.ofCode?, StackOp.all]
  | sop op stack =>
    have hop := op.code_lt
    have hm : op.code % 16 = op.code := Nat.mod_eq_of_lt (by omega)
    simp [words, decode, reg, ofNibble_nib h, StackOp.arithCode, hm, ArithOp.ofCode?_code]
  | pushImm value stack => simp [words, decode, reg, StackOp.pushImmediateCode, ofNibble_nib h]
  | test op lhs rhs =>
    have hm : op.code % 16 = op.code := by cases op <;> rfl
    simp [words, decode, reg, hm, Comparison.ofCode?_code, ofNibble_nib h.1, ofNibble_nib h.2]
  | testImm op lhs value =>
    have hm : (op.code + Comparison.immediateBit) % 16 = op.code + Comparison.immediateBit := by
      cases op <;> rfl
    simp [words, decode, reg, hm, Comparison.ofCode?_immediate, ofNibble_nib h.1, h.2,
      Nat.mod_eq_of_lt]
  | access op reg offset address =>
    obtain ⟨hr, ho, hl⟩ := h
    cases offset with
    | none =>
      have hm : op.code % 16 = op.code := by cases op <;> rfl
      simp [words, decode, Instruction.reg, hm, AccessOp.ofCode?_code, ofNibble_nib hr]
    | some offset =>
      have hn : op ≠ .li := fun e => by cases hl e
      have hm : op.offsetCode % 16 = op.offsetCode := by cases op <;> rfl
      simp [words, decode, Instruction.reg, hm, AccessOp.ofCode?_offsetCode hn, ofNibble_nib hr,
        ofNibble_nib (ho offset rfl)]
  | indexed op reg base offset =>
    obtain ⟨hr, hb, ho⟩ := h
    cases offset with
    | none =>
      have hp : Register.ofNibble (nib .pc % 16) = .pc := rfl
      cases op <;>
        simp [words, decode, Instruction.reg, IndexedOp.code, IndexedOp.ofCode, IndexedOp.all,
          ofNibble_nib hr, ofNibble_nib hb, hp]
    | some offset =>
      obtain ⟨hf, hp⟩ := ho offset rfl
      cases op <;>
        simp [words, decode, Instruction.reg, IndexedOp.code, IndexedOp.ofCode, IndexedOp.all,
          ofNibble_nib hr, ofNibble_nib hb, ofNibble_nib hf, hp]
  | jumpReg reg => simp [words, decode, Instruction.reg, ofNibble_nib h]
  | jump kind target =>
    have hb : target.toNat ≤ 4095 := h
    have ht : UInt16.ofNat ((Word.ofNibbles (12 + kind.code) (target.toNat / 256)
        (target.toNat / 16) target.toNat).toNat % 4096) = target := by
      apply UInt16.toNat_inj.mp
      simp only [UInt16.toNat_ofNat', Word.toNat_ofNibbles]
      omega
    cases kind <;>
      simpa [words, decode, JumpKind.code, JumpKind.ofCode, JumpKind.all] using ht

theorem readable_ofNibble (n : Nat) : (Register.ofNibble n).isReadable = true := by
  have h : ∀ k < 16, (Register.all.getD k .t0).isReadable = true := by decide
  exact h (n % 16) (Nat.mod_lt n (by decide))

theorem toNat_nibble_lt (w : Word) (i : Fin 4) : (UInt8.ofNat (w.nibble i)).toNat < 16 := by
  have h := Word.nibble_lt w i
  rw [UInt8.toNat_ofNat']
  omega

/-- What a word holds has a place in it. -/
theorem canonical_of_decode {w data : Word} {i : Instruction} (h : decode w data = some i) :
    i.Canonical := by
  have hr (k : Fin 4) : (reg w k).isReadable = true := readable_ofNibble _
  have hn (k : Fin 4) := toNat_nibble_lt w k
  have hw := Word.toNat_lt w
  unfold decode at h
  split at h
  · split at h <;> simp only [Option.some.injEq, reduceCtorEq] at h <;> subst h
    all_goals first | trivial | exact ⟨hr _, hr _⟩ | exact ⟨hr _, hn _⟩
  · split at h
    · obtain ⟨op, -, rfl⟩ := Option.map_eq_some_iff.mp h
      exact hr 1
    · obtain ⟨op, -, rfl⟩ := Option.map_eq_some_iff.mp h
      split
      · exact ⟨hr 1, hr 1, fun _ => rfl⟩
      · next hu => exact ⟨hr 1, hr 0, fun u => absurd u hu⟩
  · split at h
    · cases h; exact ⟨hr _, hr _⟩
    · cases h; exact ⟨hr _, hr _⟩
    · obtain ⟨op, -, rfl⟩ := Option.map_eq_some_iff.mp h
      exact hr 0
    · cases h; exact hr 0
    · obtain ⟨op, -, rfl⟩ := Option.map_eq_some_iff.mp h
      exact hr 0
  · obtain ⟨⟨op, immediate⟩, -, h⟩ := Option.map_eq_some_iff.mp h
    dsimp only at h
    split at h <;> subst h
    · exact ⟨hr 1, hn 0⟩
    · exact ⟨hr 1, hr 0⟩
  · obtain ⟨⟨op, withOffset⟩, ho, rfl⟩ := Option.map_eq_some_iff.mp h
    refine ⟨hr 1, ?_, ?_⟩
    · intro r hm
      split at hm
      · cases hm; exact hr 0
      · cases hm
    · rintro rfl
      cases withOffset with
      | false => rfl
      | true =>
        unfold AccessOp.ofCode? at ho
        split at ho <;> cases ho
  · cases h; exact hr 0
  · split at h
    · cases h
      refine ⟨hr 2, hr 1, ?_⟩
      intro r hm
      split at hm
      · cases hm
      · next hp => cases hm; exact ⟨hr 0, hp⟩
    · split at h
      · cases h
      · cases h
        show (UInt16.ofNat (w.toNat % 4096)).toNat ≤ 4095
        rw [UInt16.toNat_ofNat']
        omega

theorem isLong_eq (w : Word) :
    isLong w = (w.nibble 3 == 8 || (w.nibble 3 == 1 && w.nibble 2 == 15) ||
      (w.nibble 3 == 2 && w.nibble 2 == 15) || (w.nibble 3 == 0 && w.nibble 2 == 5)) := by
  have h := Word.toNat_lt w
  rw [Bool.eq_iff_iff]
  simp only [isLong, Word.nibble, Bool.or_eq_true, Bool.and_eq_true, beq_iff_eq]
  omega

/-- The first word tells whether a second one follows. -/
theorem isLong_words (i : Instruction) : isLong i.words.1 = (i.size == 4) := by
  rw [isLong_eq]
  cases i with
  | arith op target source => cases op <;> simp [words, size, ArithOp.code]
  | rearrange op stack => cases op <;> simp [words, size, StackOp.code]
  | access op reg offset address => cases offset <;> simp [words, size]
  | indexed op reg base offset => cases op <;> simp [words, size, IndexedOp.code]
  | jump kind target => cases kind <;> simp [words, size, JumpKind.code]
  | _ => simp [words, size, ArithOp.immediateCode, StackOp.pushCode, StackOp.popCode,
      StackOp.arithCode, StackOp.pushImmediateCode]

/-- The instruction at the front of some code, with the word behind the first one as data where the
first one asks for it. -/
def front? : List Byte → Option Instruction
  | high :: low :: rest =>
    let w := Word.ofBytes high low
    if isLong w then
      match rest with
      | h :: l :: _ => decode w (Word.ofBytes h l)
      | _ => none
    else decode w 0
  | _ => none

/-- All instructions of some code, each as far behind the one before as that one is long. -/
def sweep (code : List Byte) : Option (List Instruction) :=
  if code.isEmpty then some []
  else
    match front? code with
    | none => none
    | some i => (sweep (code.drop i.size)).map (i :: ·)
termination_by code.length
decreasing_by
  rename_i h
  have hc : code ≠ [] := by simpa using h
  have hl := List.length_pos_iff.mpr hc
  have hs := i.size_eq_two_or_four
  simp only [List.length_drop]
  omega

theorem front?_encode {i : Instruction} (h : i.Canonical) (rest : List Byte) :
    front? (i.encode ++ rest) = some i := by
  have hd := decode_words h 0
  have hl := isLong_words i
  have hw := encode_length i
  unfold encode at hw ⊢
  rcases hi : i.words with ⟨first, second⟩
  rw [hi] at hd hl hw
  cases second with
  | none =>
    have hs : (i.size == 4) = false := by rw [← hw]; rfl
    simpa [front?, Word.bytes, Word.ofBytes_high_low, hl, hs] using hd
  | some data =>
    have hs : (i.size == 4) = true := by rw [← hw]; rfl
    simpa [front?, Word.bytes, Word.ofBytes_high_low, hl, hs] using hd

theorem drop_encode (i : Instruction) (rest : List Byte) :
    (i.encode ++ rest).drop i.size = rest := by
  rw [← encode_length i]
  exact List.drop_left

/-- Nothing is lost or taken for something else in the code of canonical instructions. -/
theorem sweep_flatMap_encode (is : List Instruction) (h : ∀ i ∈ is, i.Canonical) :
    sweep (is.flatMap encode) = some is := by
  induction is with
  | nil => rw [sweep]; rfl
  | cons i is ih =>
    have hi := h i (by simp)
    have hn : (i.encode ++ is.flatMap encode).isEmpty = false := by
      have hl := encode_length i
      have hs := i.size_eq_two_or_four
      rw [List.isEmpty_eq_false_iff, ← List.length_pos_iff, List.length_append]
      omega
    rw [List.flatMap_cons, sweep, hn, front?_encode hi]
    simp only [Bool.false_eq_true, if_false]
    rw [drop_encode, ih fun j hj => h j (by simp [hj])]
    rfl

end Instruction
end Minicomputer
