import Minicomputer.Proofs.Assembly.Grammar
import Minicomputer.Proofs.Instruction.Spelling

/-!
# Reading the spelling of instructions

The operands of an instruction as its text spells them are read without complaint exactly where the
instruction is within the bounds of the assembler, and then they are read as that instruction.
-/

set_option autoImplicit false

namespace Minicomputer.Assembly

open Reading Instruction
open Token (Piece Spells)

/-- The statement that names an instruction outright. -/
def Operation.ofInstruction : Instruction → Operation
  | .access op reg offset address => .access op reg offset (.value address)
  | .jump kind target => .jump kind (.value target)
  | i => .fixed i

theorem instruction?_ofInstruction (labels : Addresses) (i : Instruction) :
    (Operation.ofInstruction i).instruction? labels = some i := by
  cases i <;> rfl

theorem label?_ofInstruction (i : Instruction) : (Operation.ofInstruction i).label? = none := by
  cases i <;> rfl

theorem size_ofInstruction (i : Instruction) : (Operation.ofInstruction i).size = i.size := by
  cases i <;> rfl

/-! ### Single operands -/

variable {k : Nat} {t : Token} {ts : List Token}

theorem namedRegister?_of_spells {r : Register} (h : Spells k t (registerPiece r)) :
    namedRegister? t = some r := by
  rw [namedRegister?, h.1, h.2.1]
  exact Register.ofName?_name r

theorem names_iff {allowed : Register → Bool} {q r : Register}
    (h : Spells k t (registerPiece r)) : Names allowed q t ↔ q = r ∧ allowed r = true := by
  rw [Names, namedRegister?_of_spells h, Option.some.injEq]
  constructor
  · rintro ⟨rfl, ha⟩
    exact ⟨rfl, ha⟩
  · rintro ⟨rfl, ha⟩
    exact ⟨rfl, ha⟩

theorem namesArith_iff {op p : ArithOp} (h : Spells k t (arithPiece op)) :
    NamesArith p t ↔ p = op := by
  have hn : ArithOp.ofName? t.text.toLower = some op := by
    rw [h.2.1]
    exact ArithOp.ofName?_name op
  rw [NamesArith, hn, Option.some.injEq, eq_comm (a := op)]
  exact and_iff_right h.1

theorem namesCall_iff {call : Byte} {known : SystemCall} (h : Spells k t (callPiece call)) :
    NamesCall known t ↔ SystemCall.ofSelector? call = some known := by
  rw [NamesCall]
  unfold callPiece at h
  cases hc : SystemCall.ofSelector? call with
  | none =>
    rw [hc] at h
    simp [h.1]
  | some other =>
    rw [hc] at h
    have hn : SystemCall.ofName? t.text = some other := by
      rw [h.2.1]
      exact SystemCall.ofName?_name other
    rw [hn]
    exact and_iff_right h.1

/-- Every operand that is a number is one of sixteen bits. -/
def IsWord (z : Int) : Prop := -32768 ≤ z ∧ z < 65536

theorem denotes_iff {z low high n : Int} (hz : IsWord z) (h : Spells k t (numberPiece z)) :
    Denotes low high n t ↔ n = z ∧ low ≤ z ∧ z ≤ high := by
  have hc : isConstant t = true := by simp [isConstant, Token.isNumber, h.1, numberPiece]
  have hv : constant? t = some z := by
    rw [constant?, h.1, Token.value?, h.1, h.2.1]
    exact Text.int32?_toString (by have := hz.1; omega) (by have := hz.2; omega)
  rw [Denotes, hc, hv, Option.some.injEq]
  constructor
  · rintro ⟨-, rfl, hb⟩
    exact ⟨rfl, hb⟩
  · rintro ⟨rfl, hb⟩
    exact ⟨rfl, rfl, hb⟩

theorem locates_iff {z low high : Int} {a : AddressOperand} (hz : IsWord z)
    (h : Spells k t (numberPiece z)) :
    Locates low high a t ↔ a = .value (Word.ofInt z) ∧ low ≤ z ∧ z ≤ high := by
  have hk : t.kind ≠ .identifier := by simp [h.1, numberPiece]
  simp only [Locates, denotes_iff hz h, hk, false_and, or_false]
  constructor
  · rintro ⟨n, ⟨rfl, hb⟩, rfl⟩
    exact ⟨rfl, hb⟩
  · rintro ⟨rfl, hb⟩
    exact ⟨z, ⟨rfl, hb⟩, rfl⟩

theorem optionalStack_iff {r stack : Register}
    (h : List.Forall₂ (Spells k) ts (stackPieces stack)) :
    OptionalStack r ts ↔ r = stack ∧ stack.isWriteable = true := by
  unfold stackPieces at h
  split at h
  · next hs =>
    cases h
    subst hs
    have hw : Register.sp.isWriteable = true := rfl
    simp [OptionalStack, hw]
  · rcases h with _ | ⟨ht, ⟨⟩⟩
    simp [OptionalStack, names_iff ht]

theorem optionalOffset_iff {o offset : Option Register}
    (h : List.Forall₂ (Spells k) ts (offset.map registerPiece).toList) :
    OptionalOffset o ts ↔ o = offset ∧ ∀ r ∈ offset, r.isReadable = true ∧ r ≠ .pc := by
  cases offset with
  | none =>
    cases h
    simp [OptionalOffset]
  | some r =>
    rcases h with _ | ⟨ht, ⟨⟩⟩
    simp [OptionalOffset, names_iff ht]
    grind

theorem isWord_nat {n : Nat} (h : n < 65536) : IsWord n := ⟨by omega, by omega⟩

theorem isWord_byte (b : Byte) : IsWord b.toNat := by
  have := b.toNat_lt
  exact isWord_nat (by omega)

theorem isWord_word (w : Word) : IsWord w.toNat := isWord_nat w.toNat_lt

theorem isWord_signed (w : Word) : IsWord w.signed := by
  have := w.toNat_lt
  unfold Word.signed IsWord
  split <;> omega

theorem selector_of_ofSelector? {call : Byte} {known : SystemCall}
    (h : SystemCall.ofSelector? call = some known) : known.selector = call := by
  simpa using List.find?_some h

theorem ofNat_toNat_amount (b : Byte) : UInt8.ofNat (b.toNat : Int).toNat = b := by simp

theorem amount_iff {n : Int} {b : Byte} (h : Spells k t (numberPiece b.toNat)) :
    Denotes 0 15 n t ↔ n = b.toNat ∧ b.toNat ≤ 15 := by
  rw [denotes_iff (isWord_byte b) h]
  refine and_congr_right fun _ => ?_
  omega

theorem accessAddress_iff {op : AccessOp} {offset : Option Register} {address : Word}
    {a : AddressOperand} (hl : op = .li → offset = none)
    (h : Spells k t (addressPiece op offset address)) :
    AccessAddress op a t ↔ a = .value address ∧ (op ≠ .li → address.toNat ≤ 4095) := by
  unfold AccessAddress
  by_cases hop : op = .li
  · rw [addressPiece, if_pos ⟨hop, hl hop⟩] at h
    have hw := isWord_signed address
    rw [if_pos hop, locates_iff hw h, Word.ofInt_signed]
    refine and_congr_right fun _ => ?_
    have h0 := hw.1
    have h1 := hw.2
    constructor
    · intro _ hn
      exact absurd hop hn
    · intro _
      omega
  · rw [addressPiece, if_neg (fun e => hop e.1)] at h
    rw [if_neg hop, locates_iff (isWord_word address) h, Word.ofInt_toNat]
    refine and_congr_right fun _ => ?_
    simp only [lastAddress]
    constructor
    · intro hb _
      omega
    · intro hb
      have := hb hop
      omega

/-! ### Whole statements -/

variable {n : Nat} {i : Instruction} {o : Operation}

/-- What the spelled operands of an instruction are read as is this instruction, within its
bounds. -/
theorem emittable_of_respelled (h : List.Forall₂ (Spells k) ts i.operandPieces)
    (hu : ∀ op target source, i = .arith op target source → op.isUnary = true → source = target)
    (hm : i.mnemonic ≠ .access .li true) (hd : Derives n i.mnemonic ts o) :
    i.Emittable ∧ o = .ofInstruction i := by
  cases i with
  | sys call =>
    rcases h with _ | ⟨ht, ⟨⟩⟩
    cases hd with
    | sys hc =>
      have hs := (namesCall_iff ht).mp hc
      refine ⟨by simp [Emittable, hs], ?_⟩
      rw [selector_of_ofSelector? hs]
      rfl
  | mv target source =>
    rcases h with _ | ⟨ht, _ | ⟨hs, ⟨⟩⟩⟩
    cases hd with
    | mv hr hq =>
      obtain ⟨rfl, hr⟩ := (names_iff ht).mp hr
      obtain ⟨rfl, hq⟩ := (names_iff hs).mp hq
      exact ⟨⟨hr, hq⟩, rfl⟩
  | inc target amount | dec target amount | seti target amount =>
    rcases h with _ | ⟨ht, _ | ⟨hs, ⟨⟩⟩⟩
    cases hd
    next hr hn =>
    obtain ⟨rfl, hr⟩ := (names_iff ht).mp hr
    obtain ⟨rfl, hb⟩ := (amount_iff hs).mp hn
    rw [ofNat_toNat_amount]
    exact ⟨⟨hr, hb⟩, rfl⟩
  | mcp source target size =>
    rcases h with _ | ⟨ht, _ | ⟨hs, _ | ⟨hz, ⟨⟩⟩⟩⟩
    cases hd with
    | mcp hr hq hn =>
      obtain ⟨rfl, hr⟩ := (names_iff ht).mp hr
      obtain ⟨rfl, hq⟩ := (names_iff hs).mp hq
      obtain ⟨rfl, h0, h1⟩ := (denotes_iff (isWord_word size) hz).mp hn
      refine ⟨⟨hr, hq, by omega⟩, ?_⟩
      simp [Operation.ofInstruction, Word.ofInt_toNat]
  | debug index =>
    rcases h with _ | ⟨ht, ⟨⟩⟩
    cases hd with
    | debug hs =>
      rw [ht.1] at hs
      cases hs
  | nop =>
    cases h
    cases hd
    exact ⟨trivial, rfl⟩
  | arith op target source =>
    cases hop : op.isUnary with
    | true =>
      obtain rfl := hu op target source rfl hop
      simp only [operandPieces, hop, if_true] at h
      rcases h with _ | ⟨ht, ⟨⟩⟩
      cases hd with
      | unary _ hr =>
        obtain ⟨rfl, hr⟩ := (names_iff ht).mp hr
        exact ⟨⟨hr, Register.readable_of_writeable hr, fun _ => rfl⟩, rfl⟩
    | false =>
      simp only [operandPieces, hop, Bool.false_eq_true, if_false] at h
      rcases h with _ | ⟨ht, _ | ⟨hs, ⟨⟩⟩⟩
      cases hd with
      | binary _ hr hq =>
        obtain ⟨rfl, hr⟩ := (names_iff ht).mp hr
        obtain ⟨rfl, hq⟩ := (names_iff hs).mp hq
        exact ⟨⟨hr, hq, fun e => absurd (hop.symm.trans e) (by decide)⟩, rfl⟩
  | arithImm op target value =>
    rcases h with _ | ⟨hp, _ | ⟨ht, _ | ⟨hv, ⟨⟩⟩⟩⟩
    cases hd with
    | imm ho hb hr hn =>
      obtain rfl := (namesArith_iff hp).mp ho
      obtain ⟨rfl, hr⟩ := (names_iff ht).mp hr
      obtain ⟨rfl, -⟩ := (denotes_iff (isWord_signed value) hv).mp hn
      rw [Word.ofInt_signed]
      exact ⟨⟨hb, hr⟩, rfl⟩
  | push reg stack | pop reg stack =>
    rcases h with _ | ⟨ht, h⟩
    cases hd
    next hr hs =>
    obtain ⟨rfl, hr⟩ := (names_iff ht).mp hr
    obtain ⟨rfl, hs⟩ := (optionalStack_iff h).mp hs
    exact ⟨⟨hr, hs⟩, rfl⟩
  | rearrange op stack =>
    cases hd with
    | rearrange hs =>
      obtain ⟨rfl, hs⟩ := (optionalStack_iff h).mp hs
      exact ⟨hs, rfl⟩
  | sop op stack =>
    rcases h with _ | ⟨hp, h⟩
    cases hd with
    | sop ho hs =>
      obtain rfl := (namesArith_iff hp).mp ho
      obtain ⟨rfl, hs⟩ := (optionalStack_iff h).mp hs
      exact ⟨hs, rfl⟩
  | pushImm value stack =>
    rcases h with _ | ⟨hv, h⟩
    cases hd with
    | pushi hn hs =>
      obtain ⟨rfl, -⟩ := (denotes_iff (isWord_signed value) hv).mp hn
      obtain ⟨rfl, hs⟩ := (optionalStack_iff h).mp hs
      rw [Word.ofInt_signed]
      exact ⟨hs, rfl⟩
  | test op lhs rhs =>
    rcases h with _ | ⟨ht, _ | ⟨hs, ⟨⟩⟩⟩
    cases hd with
    | test hr hq =>
      obtain ⟨rfl, hr⟩ := (names_iff ht).mp hr
      obtain ⟨rfl, hq⟩ := (names_iff hs).mp hq
      exact ⟨⟨hr, hq⟩, rfl⟩
  | testImm op lhs value =>
    rcases h with _ | ⟨ht, _ | ⟨hs, ⟨⟩⟩⟩
    cases hd with
    | testImm hr hn =>
      obtain ⟨rfl, hr⟩ := (names_iff ht).mp hr
      obtain ⟨rfl, hb⟩ := (amount_iff hs).mp hn
      rw [ofNat_toNat_amount]
      exact ⟨⟨hr, hb⟩, rfl⟩
  | access op reg offset address =>
    cases offset with
    | none =>
      rcases h with _ | ⟨ht, _ | ⟨hs, ⟨⟩⟩⟩
      cases hd with
      | access hr ha =>
        obtain ⟨rfl, hr⟩ := (names_iff ht).mp hr
        obtain ⟨rfl, hb⟩ := (accessAddress_iff (fun _ => rfl) hs).mp ha
        exact ⟨⟨hr, by simp, fun _ => rfl, hb⟩, rfl⟩
    | some offset =>
      have hop : op ≠ .li := fun e => hm (by rw [e]; rfl)
      rcases h with _ | ⟨ht, _ | ⟨hp, _ | ⟨hs, ⟨⟩⟩⟩⟩
      cases hd with
      | accessOffset hr hq ha =>
        obtain ⟨rfl, hr⟩ := (names_iff ht).mp hr
        obtain ⟨rfl, hq⟩ := (names_iff hp).mp hq
        obtain ⟨rfl, hb⟩ := (accessAddress_iff (fun e => absurd e hop) hs).mp ha
        exact ⟨⟨hr, by simpa using hq, fun e => absurd e hop, hb⟩, rfl⟩
  | indexed op reg base offset =>
    rcases h with _ | ⟨ht, _ | ⟨hb, h⟩⟩
    cases hd with
    | indexed hr hq ho =>
      obtain ⟨rfl, hr⟩ := (names_iff ht).mp hr
      obtain ⟨rfl, hq⟩ := (names_iff hb).mp hq
      obtain ⟨rfl, ho⟩ := (optionalOffset_iff h).mp ho
      exact ⟨⟨hr, hq, ho⟩, rfl⟩
  | jumpReg reg =>
    rcases h with _ | ⟨ht, ⟨⟩⟩
    cases hd with
    | jr hr =>
      obtain ⟨rfl, hr⟩ := (names_iff ht).mp hr
      exact ⟨hr, rfl⟩
  | jump kind target =>
    rcases h with _ | ⟨ht, ⟨⟩⟩
    cases hd with
    | jump ha =>
      obtain ⟨rfl, h0, h1⟩ := (locates_iff (isWord_word target) ht).mp ha
      rw [Word.ofInt_toNat]
      simp only [lastAddress] at h1
      exact ⟨show target.toNat ≤ 4095 by omega, rfl⟩

/-- Within its bounds an instruction is what its spelled operands are read as. -/
theorem derives_of_emittable (h : List.Forall₂ (Spells k) ts i.operandPieces) (he : i.Emittable) :
    Derives n i.mnemonic ts (.ofInstruction i) := by
  cases i with
  | sys call =>
    rcases h with _ | ⟨ht, ⟨⟩⟩
    obtain ⟨known, hs⟩ := Option.isSome_iff_exists.mp he
    have hd : Derives n .sys _ _ := .sys ((namesCall_iff ht).mpr hs)
    rw [selector_of_ofSelector? hs] at hd
    exact hd
  | mv target source =>
    rcases h with _ | ⟨ht, _ | ⟨hs, ⟨⟩⟩⟩
    exact .mv ((names_iff ht).mpr ⟨rfl, he.1⟩) ((names_iff hs).mpr ⟨rfl, he.2⟩)
  | inc target amount | dec target amount | seti target amount =>
    rcases h with _ | ⟨ht, _ | ⟨hs, ⟨⟩⟩⟩
    rw [← ofNat_toNat_amount amount]
    constructor
    · exact (names_iff ht).mpr ⟨rfl, he.1⟩
    · exact (amount_iff hs).mpr ⟨rfl, he.2⟩
  | mcp source target size =>
    rcases h with _ | ⟨ht, _ | ⟨hs, _ | ⟨hz, ⟨⟩⟩⟩⟩
    obtain ⟨hr, hq, hb⟩ := he
    have hd : Derives n .mcp _ _ := .mcp ((names_iff ht).mpr ⟨rfl, hr⟩)
      ((names_iff hs).mpr ⟨rfl, hq⟩)
      ((denotes_iff (isWord_word size) hz).mpr ⟨rfl, by omega, by omega⟩)
    rw [Word.ofInt_toNat] at hd
    exact hd
  | debug index => exact absurd he id
  | nop =>
    cases h
    exact .nop
  | arith op target source =>
    obtain ⟨hr, hq, hu⟩ := he
    cases hop : op.isUnary with
    | true =>
      obtain rfl := hu hop
      simp only [operandPieces, hop, if_true] at h
      rcases h with _ | ⟨ht, ⟨⟩⟩
      exact .unary hop ((names_iff ht).mpr ⟨rfl, hr⟩)
    | false =>
      simp only [operandPieces, hop, Bool.false_eq_true, if_false] at h
      rcases h with _ | ⟨ht, _ | ⟨hs, ⟨⟩⟩⟩
      exact .binary hop ((names_iff ht).mpr ⟨rfl, hr⟩) ((names_iff hs).mpr ⟨rfl, hq⟩)
  | arithImm op target value =>
    rcases h with _ | ⟨hp, _ | ⟨ht, _ | ⟨hv, ⟨⟩⟩⟩⟩
    have hw := isWord_signed value
    have hd : Derives n .imm _ _ := .imm ((namesArith_iff hp).mpr rfl) he.1
      ((names_iff ht).mpr ⟨rfl, he.2⟩)
      ((denotes_iff hw hv).mpr ⟨rfl, hw.1, Int.le_of_lt_add_one hw.2⟩)
    rw [Word.ofInt_signed] at hd
    exact hd
  | push source stack =>
    rcases h with _ | ⟨ht, h⟩
    exact .push ((names_iff ht).mpr ⟨rfl, he.1⟩) ((optionalStack_iff h).mpr ⟨rfl, he.2⟩)
  | pop target stack =>
    rcases h with _ | ⟨ht, h⟩
    exact .pop ((names_iff ht).mpr ⟨rfl, he.1⟩) ((optionalStack_iff h).mpr ⟨rfl, he.2⟩)
  | rearrange op stack => exact .rearrange ((optionalStack_iff h).mpr ⟨rfl, he⟩)
  | sop op stack =>
    rcases h with _ | ⟨hp, h⟩
    exact .sop ((namesArith_iff hp).mpr rfl) ((optionalStack_iff h).mpr ⟨rfl, he⟩)
  | pushImm value stack =>
    rcases h with _ | ⟨hv, h⟩
    have hw := isWord_signed value
    have hd : Derives n .pushi _ _ := .pushi
      ((denotes_iff hw hv).mpr ⟨rfl, hw.1, Int.le_of_lt_add_one hw.2⟩)
      ((optionalStack_iff h).mpr ⟨rfl, he⟩)
    rw [Word.ofInt_signed] at hd
    exact hd
  | test op lhs rhs =>
    rcases h with _ | ⟨ht, _ | ⟨hs, ⟨⟩⟩⟩
    exact .test ((names_iff ht).mpr ⟨rfl, he.1⟩) ((names_iff hs).mpr ⟨rfl, he.2⟩)
  | testImm op lhs value =>
    rcases h with _ | ⟨ht, _ | ⟨hs, ⟨⟩⟩⟩
    have hd : Derives n (.test op true) _ _ := .testImm ((names_iff ht).mpr ⟨rfl, he.1⟩)
      ((amount_iff hs).mpr ⟨rfl, he.2⟩)
    rw [ofNat_toNat_amount] at hd
    exact hd
  | access op reg offset address =>
    obtain ⟨hr, ho, hl, ha⟩ := he
    cases offset with
    | none =>
      rcases h with _ | ⟨ht, _ | ⟨hs, ⟨⟩⟩⟩
      exact .access ((names_iff ht).mpr ⟨rfl, hr⟩) ((accessAddress_iff hl hs).mpr ⟨rfl, ha⟩)
    | some offset =>
      rcases h with _ | ⟨ht, _ | ⟨hp, _ | ⟨hs, ⟨⟩⟩⟩⟩
      exact .accessOffset ((names_iff ht).mpr ⟨rfl, hr⟩) ((names_iff hp).mpr ⟨rfl, ho _ rfl⟩)
        ((accessAddress_iff hl hs).mpr ⟨rfl, ha⟩)
  | indexed op reg base offset =>
    rcases h with _ | ⟨ht, _ | ⟨hb, h⟩⟩
    exact .indexed ((names_iff ht).mpr ⟨rfl, he.1⟩) ((names_iff hb).mpr ⟨rfl, he.2.1⟩)
      ((optionalOffset_iff h).mpr ⟨rfl, he.2.2⟩)
  | jumpReg reg =>
    rcases h with _ | ⟨ht, ⟨⟩⟩
    exact .jr ((names_iff ht).mpr ⟨rfl, he⟩)
  | jump kind target =>
    rcases h with _ | ⟨ht, ⟨⟩⟩
    have hb : target.toNat ≤ 4095 := he
    refine .jump ((locates_iff (isWord_word target) ht).mpr ⟨?_, by omega, ?_⟩)
    · rw [Word.ofInt_toNat]
    · simp only [lastAddress]
      omega

theorem mnemonic_ne_of_emittable (he : i.Emittable) : i.mnemonic ≠ .access .li true := by
  cases i with
  | access op reg offset address =>
    intro e
    obtain ⟨rfl, ho⟩ := Mnemonic.access.inj e
    rw [he.2.2.1 rfl] at ho
    cases ho
  | _ => simp [mnemonic]

/-- The spelling of an instruction stands for it, and only within its bounds for anything. -/
theorem stands_pieces_iff {first : Token} {operands : List Token}
    (h : List.Forall₂ (Spells k) (first :: operands) i.pieces)
    (hu : ∀ op target source, i = .arith op target source → op.isUnary = true → source = target) :
    Stands n first operands o ↔ i.Emittable ∧ o = .ofInstruction i := by
  rcases h with _ | ⟨hf, h⟩
  constructor
  · rintro ⟨-, m, implied, hw, hd⟩
    rw [hf.2.1] at hw
    have hm : i.mnemonic ≠ .access .li true := by
      intro e
      rw [e, Mnemonic.ofWord?_lio] at hw
      cases hw
    rw [Mnemonic.ofWord?_name hm] at hw
    cases hw
    exact emittable_of_respelled h hu hm hd
  · rintro ⟨he, rfl⟩
    refine ⟨hf.1, i.mnemonic, none, ?_, derives_of_emittable h he⟩
    rw [hf.2.1]
    exact Mnemonic.ofWord?_name (mnemonic_ne_of_emittable he)

end Minicomputer.Assembly
