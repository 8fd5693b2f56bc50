import Minicomputer.Assembly.Mnemonic
import Minicomputer.Instruction.Text
import Minicomputer.Proofs.Token.Words

/-!
# The spelling of instructions

The text of an instruction is a mnemonic with operands behind it, each of them a name or a number.
Every mnemonic is known to the assembler by its name.
-/

set_option autoImplicit false

namespace Minicomputer

open Token (Piece Lexes isName spaced lexes_name lexes_number lexes_hex)

namespace Assembly.Mnemonic

def name : Mnemonic → String
  | sys => "sys" | mv => "mv" | inc => "inc" | dec => "dec" | seti => "seti" | mcp => "mcp"
  | debug => "debug" | nop => "nop"
  | imm => "imm"
  | arith op => op.name
  | push => "push" | pop => "pop" | sop => "sop"
  | rearrange op => op.name
  | pushi => "pushi"
  | test op false => op.name
  | test op true => op.name ++ "i"
  | access op false => op.name
  | access op true => op.name ++ "o"
  | indexed op => op.name
  | jump kind => kind.name
  | jr => "jr"

def all : List Mnemonic :=
  plain.map (·.2) ++ ArithOp.all.map arith ++ StackOp.all.map rearrange ++
    [false, true].flatMap (fun immediate => Comparison.all.map (test · immediate)) ++
    [false, true].flatMap (fun withOffset => AccessOp.all.map (access · withOffset)) ++
    IndexedOp.all.map indexed ++ JumpKind.all.map jump

theorem mem_all (m : Mnemonic) : m ∈ all := by
  unfold all
  cases m with
  | arith op => simp [op.mem_all]
  | rearrange op => simp [op.mem_all]
  | test op immediate => cases immediate <;> simp [op.mem_all]
  | access op withOffset => cases withOffset <;> simp [op.mem_all]
  | indexed op => simp [op.mem_all]
  | jump kind => simp [kind.mem_all]
  | _ => simp [plain]

theorem isName_name (m : Mnemonic) : isName m.name.toList = true := by
  have h : ∀ m ∈ all, isName m.name.toList = true := by decide_cbv
  exact h m m.mem_all

/-- `li` with an offset register has a spelling that is not read. -/
theorem ofWord?_lio : ofWord? (access .li true).name = none := by decide_cbv

theorem ofWord?_name {m : Mnemonic} (h : m ≠ access .li true) :
    ofWord? m.name = some (m, none) := by
  have hall : ∀ m ∈ all, m ≠ access .li true → ofWord? m.name = some (m, none) := by
    decide_cbv
  exact hall m m.mem_all h

end Assembly.Mnemonic

theorem Register.ofName?_name (r : Register) : ofName? r.name = some r := by
  have h : ∀ r ∈ all, ofName? r.name = some r := by decide_cbv
  exact h r r.mem_all

theorem ArithOp.ofName?_name (op : ArithOp) : ofName? op.name.toLower = some op := by
  have h : ∀ op ∈ all, ofName? op.name.toLower = some op := by decide_cbv
  exact h op op.mem_all

theorem SystemCall.ofName?_name (call : SystemCall) : ofName? call.name = some call := by
  have h : ∀ call ∈ all, ofName? call.name = some call := by decide_cbv
  exact h call call.mem_all

theorem Register.isName_name (r : Register) : isName r.name.toList = true := by
  have h : ∀ r ∈ all, isName r.name.toList = true := by decide_cbv
  exact h r r.mem_all

theorem ArithOp.isName_name (op : ArithOp) : isName op.name.toList = true := by
  have h : ∀ op ∈ all, isName op.name.toList = true := by decide_cbv
  exact h op op.mem_all

theorem SystemCall.isName_name (call : SystemCall) : isName call.name.toList = true := by
  have h : ∀ call ∈ all, isName call.name.toList = true := by decide_cbv
  exact h call call.mem_all

namespace Instruction

open Assembly (Mnemonic)

def mnemonic : Instruction → Mnemonic
  | sys _ => .sys
  | mv .. => .mv
  | inc .. => .inc
  | dec .. => .dec
  | seti .. => .seti
  | mcp .. => .mcp
  | debug _ => .debug
  | nop => .nop
  | arith op _ _ => .arith op
  | arithImm .. => .imm
  | push .. => .push
  | pop .. => .pop
  | rearrange op _ => .rearrange op
  | sop .. => .sop
  | pushImm .. => .pushi
  | test op _ _ => .test op false
  | testImm op _ _ => .test op true
  | access op _ offset _ => .access op offset.isSome
  | indexed op _ _ _ => .indexed op
  | jumpReg _ => .jr
  | jump kind _ => .jump kind

/-- A register as an operand. -/
def registerPiece (r : Register) : Piece := ⟨.identifier, r.name⟩

def arithPiece (op : ArithOp) : Piece := ⟨.identifier, op.name⟩

def numberPiece (z : Int) : Piece := ⟨.integer, toString z⟩

def callPiece (call : Byte) : Piece :=
  match SystemCall.ofSelector? call with
  | some known => ⟨.identifier, known.name⟩
  | none => ⟨.hex, Text.marked 2 call.toNat⟩

/-- The stack register is left out where it is `sp`. -/
def stackPieces (stack : Register) : List Piece :=
  if stack = .sp then [] else [registerPiece stack]

/-- `li` shows any word as a signed number, the others show an address. -/
def addressPiece (op : AccessOp) (offset : Option Register) (address : Word) : Piece :=
  numberPiece (if op = .li ∧ offset = none then address.signed else address.toNat)

def operandPieces : Instruction → List Piece
  | sys call => [callPiece call]
  | mv target source => [registerPiece target, registerPiece source]
  | inc target amount | dec target amount => [registerPiece target, numberPiece amount.toNat]
  | seti target value => [registerPiece target, numberPiece value.toNat]
  | mcp source target size =>
    [registerPiece source, registerPiece target, numberPiece size.toNat]
  | debug index => [numberPiece index.toNat]
  | nop => []
  | arith op target source =>
    if op.isUnary then [registerPiece target] else [registerPiece target, registerPiece source]
  | arithImm op target value => [arithPiece op, registerPiece target, numberPiece value.signed]
  | push reg stack | pop reg stack => registerPiece reg :: stackPieces stack
  | rearrange _ stack => stackPieces stack
  | sop op stack => arithPiece op :: stackPieces stack
  | pushImm value stack => numberPiece value.signed :: stackPieces stack
  | test _ lhs rhs => [registerPiece lhs, registerPiece rhs]
  | testImm _ lhs value => [registerPiece lhs, numberPiece value.toNat]
  | access op reg offset address =>
    registerPiece reg :: (offset.map registerPiece).toList ++ [addressPiece op offset address]
  | indexed _ reg base offset =>
    registerPiece reg :: registerPiece base :: (offset.map registerPiece).toList
  | jumpReg reg => [registerPiece reg]
  | jump _ target => [numberPiece target.toNat]

def pieces (i : Instruction) : List Piece := ⟨.identifier, i.mnemonic.name⟩ :: i.operandPieces

/-- What is true of names, numbers and the selectors of unknown calls is true of each piece. -/
theorem forall_mem_pieces {P : Piece → Prop}
    (hname : ∀ {text : String}, isName text.toList = true → P ⟨.identifier, text⟩)
    (hnumber : ∀ z, P (numberPiece z)) (hhex : ∀ n, P ⟨.hex, Text.marked 2 n⟩) (i : Instruction) :
    ∀ w ∈ i.pieces, P w := by
  have hr (r : Register) : P (registerPiece r) := hname r.isName_name
  have ha (op : ArithOp) : P (arithPiece op) := hname op.isName_name
  have hs (stack : Register) : ∀ w ∈ stackPieces stack, P w := by
    unfold stackPieces
    split
    · simp
    · simpa using hr stack
  have hc (call : Byte) : P (callPiece call) := by
    unfold callPiece
    cases SystemCall.ofSelector? call with
    | some known => exact hname known.isName_name
    | none => exact hhex call.toNat
  refine List.forall_mem_cons.mpr ⟨hname i.mnemonic.isName_name, ?_⟩
  cases i with
  | sys call => simpa [operandPieces] using hc call
  | arith op target source =>
    simp only [operandPieces]
    split <;> simp [hr]
  | push reg stack | pop reg stack =>
    exact List.forall_mem_cons.mpr ⟨hr reg, hs stack⟩
  | rearrange op stack => exact hs stack
  | sop op stack => exact List.forall_mem_cons.mpr ⟨ha op, hs stack⟩
  | pushImm value stack => exact List.forall_mem_cons.mpr ⟨hnumber _, hs stack⟩
  | access op reg offset address =>
    cases offset <;> simp [operandPieces, addressPiece, hr, hnumber]
  | indexed op reg base offset => cases offset <;> simp [operandPieces, hr]
  | _ => simp [operandPieces, hr, ha, hnumber]

theorem isHexDigit_of_mem_hex {width n : Nat} {c : Char} (h : c ∈ (Text.hex width n).toList) :
    Token.isHexDigit c = true := by
  rw [Text.hex, String.toList_ofList, Text.padLeft, List.mem_append] at h
  obtain h | h := h
  · obtain rfl := (List.mem_replicate.mp h).2
    decide
  · exact Token.isHexDigit_of_mem_toDigits h

theorem lexes_pieces (i : Instruction) : ∀ w ∈ i.pieces, Lexes w := by
  refine i.forall_mem_pieces lexes_name lexes_number fun n => ?_
  have ht : (Text.marked 2 n).toList = '0' :: 'x' :: (Text.hex 2 n).toList := by
    rw [Text.marked, String.toList_append]
    rfl
  exact lexes_hex ht fun d => isHexDigit_of_mem_hex

theorem toList_line (s : String) (ss : List String) :
    (line (s :: ss)).toList = s.toList ++ ss.flatMap fun t => ' ' :: t.toList := by
  rw [line, String.toList_intercalate, List.map_cons]
  show [' '].intercalate _ = _
  rw [Token.intercalate_cons, List.flatMap_map]

theorem toList_onStack (stack : Register) :
    (onStack stack).toList = (stackPieces stack).flatMap fun w => ' ' :: w.text.toList := by
  unfold onStack stackPieces
  split
  · rfl
  · simp [registerPiece]

theorem text_numberPiece (n : Nat) : (numberPiece n).text = toString n := rfl

/-- The text of an instruction is its pieces with blanks between them. -/
theorem text_eq_spaced (i : Instruction) : i.text.toList = spaced i.pieces := by
  rw [pieces, Token.spaced_cons]
  cases i with
  | sys call =>
    cases hc : SystemCall.ofSelector? call with
    | none => simp [text, toList_line, operandPieces, mnemonic, Mnemonic.name, callPiece, hc]
    | some known => simp [text, toList_line, operandPieces, mnemonic, Mnemonic.name, callPiece, hc]
  | arith op target source =>
    cases hu : op.isUnary with
    | true => simp [text, toList_line, operandPieces, mnemonic, Mnemonic.name, registerPiece, hu]
    | false => simp [text, toList_line, operandPieces, mnemonic, Mnemonic.name, registerPiece, hu]
  | push reg stack | pop reg stack =>
    simp [text, toList_line, toList_onStack, operandPieces, mnemonic, Mnemonic.name, registerPiece]
  | rearrange op stack => simp [text, toList_onStack, operandPieces, mnemonic, Mnemonic.name]
  | sop op stack =>
    simp [text, toList_line, toList_onStack, operandPieces, mnemonic, Mnemonic.name, arithPiece]
  | pushImm value stack =>
    simp [text, toList_line, toList_onStack, operandPieces, mnemonic, Mnemonic.name, numberPiece]
  | access op reg offset address =>
    cases offset with
    | some offset =>
      simp [text, toList_line, operandPieces, mnemonic, Mnemonic.name, registerPiece, addressPiece,
        text_numberPiece]
    | none =>
      cases op with
      | li =>
        simp [text, toList_line, operandPieces, mnemonic, Mnemonic.name, registerPiece,
          addressPiece, numberPiece, AccessOp.name]
      | _ =>
        simp [text, toList_line, operandPieces, mnemonic, Mnemonic.name, registerPiece,
          addressPiece, text_numberPiece]
  | indexed op reg base offset =>
    cases offset <;>
      simp [text, toList_line, operandPieces, mnemonic, Mnemonic.name, registerPiece]
  | arithImm op target value =>
    simp [text, toList_line, operandPieces, mnemonic, Mnemonic.name, registerPiece, arithPiece,
      numberPiece]
  | _ =>
    simp [text, toList_line, operandPieces, mnemonic, Mnemonic.name, registerPiece,
      text_numberPiece]

end Instruction

end Minicomputer
