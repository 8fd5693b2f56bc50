import Minicomputer.Instruction.Operation

/-!
# Mnemonics

The names of instructions, each with the family that fixes its operands, and the short forms that
stand for a mnemonic with its first operand.
-/

set_option autoImplicit false

namespace Minicomputer.Assembly

inductive Family where
  | misc | alu | stack | stackImmediate | test | loadStore | loadStoreRegister | jump | jumpRegister
  deriving DecidableEq, Repr

inductive Mnemonic where
  | sys | mv | inc | dec | seti | mcp | debug | nop
  | imm
  | arith (op : ArithOp)
  | push | pop | sop
  | rearrange (op : StackOp)
  | pushi
  | test (op : Comparison) (immediate : Bool)
  | access (op : AccessOp) (withOffset : Bool)
  | indexed (op : IndexedOp)
  | jump (kind : JumpKind)
  | jr
  deriving DecidableEq, Repr

namespace Mnemonic

def family : Mnemonic → Family
  | sys | mv | inc | dec | seti | mcp | debug | nop => .misc
  | imm | arith _ => .alu
  | push | pop | sop | rearrange _ => .stack
  | pushi => .stackImmediate
  | test .. => .test
  | access .. => .loadStore
  | indexed _ => .loadStoreRegister
  | jump _ => .jump
  | jr => .jumpRegister

def plain : List (String × Mnemonic) :=
  [("sys", sys), ("mv", mv), ("inc", inc), ("dec", dec), ("seti", seti), ("mcp", mcp),
   ("debug", debug), ("nop", nop), ("imm", imm), ("push", push), ("pop", pop), ("sop", sop),
   ("pushi", pushi), ("jr", jr)]

/-- The mnemonic of a name, which is in lower case. -/
def ofName? (s : String) : Option Mnemonic :=
  plain.lookup s
    <|> (ArithOp.ofName? s).map arith
    <|> (StackOp.ofName? s).map rearrange
    <|> (Comparison.ofMnemonic? s).map (fun (op, immediate) => test op immediate)
    <|> (AccessOp.ofMnemonic? s).map (fun (op, withOffset) => access op withOffset)
    <|> (IndexedOp.ofName? s).map indexed
    <|> (JumpKind.ofName? s).map jump

def unaliased : String → String
  | "mov" => "mv"
  | "ldi" => "li"
  | "la" => "li"
  | "noop" => "nop"
  | s => s

/-- The mnemonic that a word stands for in any letter case, and the name of its first operand where
the word says that too: an operation with `i` behind it is `imm`, with `s` in front of it `sop`. -/
def ofWord? (word : String) : Option (Mnemonic × Option String) :=
  let s := unaliased word.toLower
  if s = "ret" then some (jr, some "ra")
  else
    match ofName? s with
    | some m => some (m, none)
    | none =>
      match ArithOp.all.find? (·.name ++ "i" == s) with
      | some op => some (imm, some op.name)
      | none => (ArithOp.all.find? ("s" ++ ·.name == s)).map fun op => (sop, some op.name)

end Mnemonic

end Minicomputer.Assembly
