import Minicomputer.Assembly.Diagnostic
import Minicomputer.Instruction.Encoding
import Minicomputer.Program.Basic

/-!
# Statements

The lines of the text segment. Most name an instruction outright; loads, stores and jumps may name a
label instead of an address, and notes for debugging take no space.
-/

set_option autoImplicit false

namespace Minicomputer.Assembly

abbrev Addresses := List (String × Int)

inductive AddressOperand where
  | value (a : Word)
  | label (t : Token)
  deriving DecidableEq, Repr

def AddressOperand.resolve? (labels : Addresses) : AddressOperand → Option Word
  | value a => some a
  | label t => (labels.lookup t.text).map Word.ofInt

inductive Note where
  /-- The source that the assembly text was made from. -/
  | file (name : String)
  /-- The line of that source for the code that follows. -/
  | line (n : UInt32)
  | global (g : GlobalVariable)
  /-- A local variable comes into scope. -/
  | enter (l : LocalVariable)
  /-- The local variables of a name go out of scope. -/
  | leave (name : String)
  deriving DecidableEq

inductive Operation where
  | fixed (i : Instruction)
  /-- A debug instruction with its text, which is the string with this number. -/
  | debug (index : Byte) (text : String)
  | access (op : AccessOp) (reg : Register) (offset : Option Register) (address : AddressOperand)
  | jump (kind : JumpKind) (target : AddressOperand)
  | note (n : Note)
  | invalid
  deriving DecidableEq

namespace Operation

/-- The size in bytes, which does not depend on where labels lie. -/
def size : Operation → Nat
  | fixed i => i.size
  | debug .. => 2
  | access .. => 4
  | jump .. => 2
  | note _ | invalid => 0

def instruction? (labels : Addresses) : Operation → Option Instruction
  | fixed i => some i
  | debug index _ => some (.debug index)
  | access op reg offset address =>
    (address.resolve? labels).map fun a => .access op reg offset a
  | jump kind target => (target.resolve? labels).map fun a => .jump kind a
  | note _ | invalid => none

/-- The label that is named, and whether its address must be one that memory has. The constant of
`li` may be any word. -/
def label? : Operation → Option (Token × Bool)
  | access op _ _ (.label t) => some (t, op != .li)
  | jump _ (.label t) => some (t, true)
  | _ => none

def encode (labels : Addresses) (o : Operation) : List Byte :=
  ((o.instruction? labels).map Instruction.encode).getD []

theorem size_of_instruction? {labels : Addresses} {o : Operation} {i : Instruction}
    (h : o.instruction? labels = some i) : i.size = o.size := by
  cases o <;> simp only [instruction?, Option.some.injEq, Option.map_eq_some_iff, reduceCtorEq] at h
  case fixed => subst h; rfl
  case debug => subst h; rfl
  case access => obtain ⟨a, -, rfl⟩ := h; rfl
  case jump => obtain ⟨a, -, rfl⟩ := h; rfl

theorem encode_length {labels : Addresses} {o : Operation} {i : Instruction}
    (h : o.instruction? labels = some i) : (o.encode labels).length = o.size := by
  rw [encode, h, Option.map_some, Option.getD_some, Instruction.encode_length,
    size_of_instruction? h]

end Operation

def lastAddress : Int := 4095

structure Statement where
  /-- The first token behind the labels; complaints about the whole line stand there. -/
  anchor : Token
  operation : Operation
  diagnostics : List Diagnostic
  deriving DecidableEq

namespace Statement

def size (s : Statement) : Nat := s.operation.size

/-- What is wrong with the label that a statement names. -/
def labelDiagnostics (labels : Addresses) (s : Statement) : List Diagnostic :=
  match s.operation.label? with
  | none => []
  | some (t, bounded) =>
    match labels.lookup t.text with
    | none => [⟨t, .unresolvedLabel⟩]
    | some a =>
      if bounded && !(0 ≤ a && a ≤ lastAddress) then [⟨t, .outOfRange 0 lastAddress⟩] else []

end Statement

end Minicomputer.Assembly
