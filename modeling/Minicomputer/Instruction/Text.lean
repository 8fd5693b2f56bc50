import Minicomputer.Instruction.Encoding
import Minicomputer.SystemCall
import Minicomputer.Text.Hexadecimal

/-!
# Instruction text

Every instruction as one line of assembly.
-/

set_option autoImplicit false

namespace Minicomputer.Instruction

/-- The stack register is left out where it is `sp`. -/
def onStack (stack : Register) : String :=
  if stack = .sp then "" else " " ++ stack.name

def line (parts : List String) : String := " ".intercalate parts

def text : Instruction → String
  | sys call =>
    match SystemCall.ofSelector? call with
    | some known => line ["sys", known.name]
    | none => line ["sys", Text.marked 2 call.toNat]
  | mv target source => line ["mv", target.name, source.name]
  | inc target amount => line ["inc", target.name, toString amount.toNat]
  | dec target amount => line ["dec", target.name, toString amount.toNat]
  | seti target value => line ["seti", target.name, toString value.toNat]
  | mcp source target size => line ["mcp", source.name, target.name, toString size.toNat]
  | debug index => line ["debug", toString index.toNat]
  | nop => "nop"
  | arith op target source =>
    if op.isUnary then line [op.name, target.name] else line [op.name, target.name, source.name]
  | arithImm op target value => line ["imm", op.name, target.name, toString value.signed]
  | push source stack => line ["push", source.name] ++ onStack stack
  | pop target stack => line ["pop", target.name] ++ onStack stack
  | rearrange op stack => op.name ++ onStack stack
  | sop op stack => line ["sop", op.name] ++ onStack stack
  | pushImm value stack => line ["pushi", toString value.signed] ++ onStack stack
  | test op lhs rhs => line [op.name, lhs.name, rhs.name]
  | testImm op lhs value => line [op.name ++ "i", lhs.name, toString value.toNat]
  | access op reg (some offset) address =>
    line [op.name ++ "o", reg.name, offset.name, toString address.toNat]
  | access .li reg none address => line ["li", reg.name, toString address.signed]
  | access op reg none address => line [op.name, reg.name, toString address.toNat]
  | indexed op reg base (some offset) => line [op.name, reg.name, base.name, offset.name]
  | indexed op reg base none => line [op.name, reg.name, base.name]
  | jumpReg reg => line ["jr", reg.name]
  | jump kind target => line [kind.name, toString target.toNat]

/-- The text of a word, whether or not it holds an instruction. -/
def textOfWords (w data : Word) : String :=
  match decode w data with
  | some i => i.text
  | none => "??? " ++ Text.marked 4 w.toNat

end Minicomputer.Instruction
