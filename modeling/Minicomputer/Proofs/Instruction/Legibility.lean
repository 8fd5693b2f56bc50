import Minicomputer.Proofs.Instruction.Canonical
import Minicomputer.Proofs.Instruction.Spelling

/-!
# Reading instructions back

The text of an instruction tells the instruction: no two of those that words can hold are written
alike, and none is written as a word without a meaning.
-/

set_option autoImplicit false

namespace Minicomputer

open Token (Piece)

namespace Token

theorem rightUnique_spells (line : Nat) : Relator.RightUnique (Spells line) := by
  intro t w v hw hv
  cases w
  cases v
  obtain ⟨rfl, rfl, -⟩ := hw
  obtain ⟨rfl, rfl, -⟩ := hv
  rfl

/-- One text has one list of tokens, and each of them spells one piece. -/
theorem eq_of_spaced {ws vs : List Piece} (hw : ∀ w ∈ ws, Lexes w) (hv : ∀ v ∈ vs, Lexes v)
    (h : spaced ws = spaced vs) : ws = vs := by
  have hend : Ends [] := by simp [Ends]
  obtain ⟨ts, p, hts, -, hs⟩ := scanFrom_spaced hw [] hend {}
  obtain ⟨us, q, hus, -, hr⟩ := scanFrom_spaced hv [] hend {}
  rw [h, hr, scanFrom_nil, scanFrom_nil] at hs
  have htokens : us = ts := (List.append_inj' hs rfl).1
  rw [htokens] at hus
  exact (rightUnique_spells _).forall₂ hts hus

end Token

/-! ### Names and numbers -/

theorem Register.name_injective : Function.Injective Register.name := by
  intro r s h
  have hr := r.ofName?_name
  rw [h, s.ofName?_name] at hr
  exact (Option.some.inj hr).symm

theorem ArithOp.name_injective : Function.Injective ArithOp.name := by
  intro op op' h
  have hop := op.ofName?_name
  rw [h, op'.ofName?_name] at hop
  exact (Option.some.inj hop).symm

theorem SystemCall.name_injective : Function.Injective SystemCall.name := by
  intro c d h
  have hc := c.ofName?_name
  rw [h, d.ofName?_name] at hc
  exact (Option.some.inj hc).symm

theorem SystemCall.selector_of_ofSelector? {b : Byte} {c : SystemCall} (h : ofSelector? b = some c) :
    c.selector = b := by
  unfold ofSelector? at h
  simpa using List.find?_some h

/-- The spelling that is not read is told from all others by just that. -/
theorem Assembly.Mnemonic.name_injective : Function.Injective Assembly.Mnemonic.name := by
  intro m n h
  by_cases hm : m = .access .li true
  · by_cases hn : n = .access .li true
    · rw [hm, hn]
    · have hread := ofWord?_name hn
      rw [← h, hm, ofWord?_lio] at hread
      cases hread
  · have hread := ofWord?_name hm
    by_cases hn : n = .access .li true
    · rw [h, hn, ofWord?_lio] at hread
      cases hread
    · rw [h, ofWord?_name hn] at hread
      cases hread
      rfl

/-- Two hexadecimal digits are read back as the byte. -/
theorem Text.marked_injective {a b : Byte} (h : marked 2 a.toNat = marked 2 b.toNat) : a = b := by
  have hread : ∀ n < 256, numeral 16 ((marked 2 n).toList.drop 2) = n := by decide +kernel
  have ha := hread a.toNat a.toNat_lt
  rw [h, hread b.toNat b.toNat_lt] at ha
  exact UInt8.toNat_inj.mp ha.symm

theorem Word.signed_injective : Function.Injective Word.signed := by
  intro v w h
  have hv := ofInt_signed v
  rw [h, ofInt_signed] at hv
  exact hv.symm

namespace Instruction

/-! ### Operands -/

@[simp] theorem registerPiece_inj {r s : Register} : registerPiece r = registerPiece s ↔ r = s := by
  simp [registerPiece, Register.name_injective.eq_iff]

@[simp] theorem arithPiece_inj {op op' : ArithOp} : arithPiece op = arithPiece op' ↔ op = op' := by
  simp [arithPiece, ArithOp.name_injective.eq_iff]

@[simp] theorem numberPiece_inj {a b : Int} : numberPiece a = numberPiece b ↔ a = b := by
  simp [numberPiece]

@[simp] theorem callPiece_inj {b c : Byte} : callPiece b = callPiece c ↔ b = c := by
  constructor
  · intro h
    unfold callPiece at h
    cases hb : SystemCall.ofSelector? b with
    | none =>
      cases hc : SystemCall.ofSelector? c with
      | none =>
        rw [hb, hc] at h
        exact Text.marked_injective (congrArg Piece.text h)
      | some d =>
        rw [hb, hc] at h
        cases congrArg Piece.kind h
    | some a =>
      cases hc : SystemCall.ofSelector? c with
      | none =>
        rw [hb, hc] at h
        cases congrArg Piece.kind h
      | some d =>
        rw [hb, hc] at h
        have had : a = d := SystemCall.name_injective (congrArg Piece.text h)
        rw [← SystemCall.selector_of_ofSelector? hb, had, SystemCall.selector_of_ofSelector? hc]
  · rintro rfl
    rfl

@[simp] theorem stackPieces_inj {r s : Register} : stackPieces r = stackPieces s ↔ r = s := by
  unfold stackPieces
  by_cases hr : r = .sp <;> by_cases hs : s = .sp <;> simp [hr, hs, eq_comm]

/-! ### Instructions -/

/-- The mnemonic settles the form, and each form shows all its fields. -/
theorem eq_of_pieces {i j : Instruction} (hi : i.Canonical) (hj : j.Canonical)
    (h : i.pieces = j.pieces) : i = j := by
  obtain ⟨hname, hoperands⟩ := List.cons.inj h
  have hm : i.mnemonic = j.mnemonic := Assembly.Mnemonic.name_injective (congrArg Piece.text hname)
  have hword {v w : Word} : v.signed = w.signed ↔ v = w := Word.signed_injective.eq_iff
  cases i with
  | arith op target source =>
    have hsource := hi.2.2
    cases j <;> cases hm
    next target' source' =>
      have hsource' := hj.2.2
      cases hu : op.isUnary with
      | true =>
        have htarget : target = target' := by simpa [operandPieces, hu] using hoperands
        rw [hsource hu, hsource' hu, htarget]
      | false => simpa [operandPieces, hu] using hoperands
  | access op reg offset address =>
    cases j with
    | access op' reg' offset' address' =>
      obtain ⟨rfl, hsome⟩ := Assembly.Mnemonic.access.inj hm
      cases offset with
      | none =>
        cases offset' with
        | none =>
          by_cases hli : op = .li <;>
            simpa [operandPieces, addressPiece, hli, hword, UInt16.toNat_inj] using hoperands
        | some r' => cases hsome
      | some r =>
        cases offset' with
        | none => cases hsome
        | some r' => simpa [operandPieces, addressPiece, UInt16.toNat_inj] using hoperands
    | _ => cases hm
  | indexed op reg base offset =>
    cases j <;> cases hm
    next reg' base' offset' =>
      have hlength := congrArg List.length hoperands
      cases offset with
      | none =>
        cases offset' with
        | none => simpa [operandPieces] using hoperands
        | some r' => cases hlength
      | some r =>
        cases offset' with
        | none => cases hlength
        | some r' => simpa [operandPieces] using hoperands
  | nop =>
    cases j <;> cases hm
    rfl
  | _ =>
    cases j <;> cases hm
    simpa [operandPieces, hword, UInt8.toNat_inj, UInt16.toNat_inj] using hoperands

theorem text_inj {i j : Instruction} (hi : i.Canonical) (hj : j.Canonical) :
    i.text = j.text ↔ i = j := by
  constructor
  · intro h
    have hspaced := congrArg String.toList h
    rw [text_eq_spaced, text_eq_spaced] at hspaced
    exact eq_of_pieces hi hj (Token.eq_of_spaced i.lexes_pieces j.lexes_pieces hspaced)
  · rintro rfl
    rfl

/-- A question mark begins no instruction. -/
theorem text_ne_of_question (i : Instruction) {s : String} (hs : s.toList.head? = some '?') :
    i.text ≠ s := by
  rintro rfl
  have hname := i.mnemonic.isName_name
  rw [text_eq_spaced, pieces, Token.spaced_cons] at hs
  cases hm : i.mnemonic.name.toList with
  | nil =>
    rw [hm] at hname
    cases hname
  | cons c cs =>
    rw [hm] at hs hname
    obtain rfl : c = '?' := Option.some.inj hs
    cases hname

/-- A word shows an instruction exactly if it holds it. -/
theorem textOfWords_eq_text_iff {i : Instruction} (hi : i.Canonical) (word data : Word) :
    textOfWords word data = i.text ↔ decode word data = some i := by
  unfold textOfWords
  cases hd : decode word data with
  | none =>
    have hunknown : ("??? " ++ Text.marked 4 word.toNat).toList.head? = some '?' := by
      simp [String.toList_append]
    exact iff_of_false (text_ne_of_question i hunknown).symm nofun
  | some j =>
    rw [Option.some.injEq]
    exact text_inj (canonical_of_decode hd) hi

end Instruction
end Minicomputer
