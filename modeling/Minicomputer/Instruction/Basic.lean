import Minicomputer.Instruction.Operation
import Minicomputer.Register

/-!
# Instructions

The instructions of the machine with their operands.
-/

set_option autoImplicit false

namespace Minicomputer

inductive Instruction where
  /-- Hands a selector to the operating system. -/
  | sys (call : Byte)
  | mv (target source : Register)
  | inc (target : Register) (amount : Byte)
  | dec (target : Register) (amount : Byte)
  | seti (target : Register) (value : Byte)
  /-- Copies `size` bytes from the address in `source` to the address in `target`. -/
  | mcp (source target : Register) (size : Word)
  /-- Notes a debug string of the loaded program. -/
  | debug (index : Byte)
  | nop
  | arith (op : ArithOp) (target source : Register)
  | arithImm (op : ArithOp) (target : Register) (value : Word)
  | push (source stack : Register)
  | pop (target stack : Register)
  | rearrange (op : StackOp) (stack : Register)
  /-- Applies an operation to the top of a stack. -/
  | sop (op : ArithOp) (stack : Register)
  | pushImm (value : Word) (stack : Register)
  | test (op : Comparison) (lhs rhs : Register)
  | testImm (op : Comparison) (lhs : Register) (value : Byte)
  | access (op : AccessOp) (reg : Register) (offset : Option Register) (address : Word)
  | indexed (op : IndexedOp) (reg base : Register) (offset : Option Register)
  | jumpReg (reg : Register)
  | jump (kind : JumpKind) (target : Word)
  deriving DecidableEq, Repr

namespace Instruction

def size : Instruction → Nat
  | mcp .. | arithImm .. | pushImm .. | access .. => 4
  | _ => 2

theorem size_eq_two_or_four (i : Instruction) : i.size = 2 ∨ i.size = 4 := by
  cases i <;> simp [size]

end Instruction

end Minicomputer
