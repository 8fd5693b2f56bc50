/-!
# Operations

The operations that instructions apply, each with its mnemonic and with the number that stands for
it in an instruction word.
-/

set_option autoImplicit false

namespace Minicomputer

inductive ArithOp where
  | add | sub | mul | div | mod
  | and | or | xor | shl | shr
  | min | max
  | not | lnot | neg
  deriving DecidableEq, Repr

namespace ArithOp

def all : List ArithOp :=
  [add, sub, mul, div, mod, and, or, xor, shl, shr, min, max, not, lnot, neg]

def code : ArithOp → Nat
  | add => 0 | sub => 1 | mul => 2 | div => 3 | mod => 4
  | and => 5 | or => 6 | xor => 7 | shl => 8 | shr => 9
  | min => 10 | max => 11
  | not => 12 | lnot => 13 | neg => 14

/-- The number that marks the immediate form and stands for no operation. -/
def immediateCode : Nat := 15

def ofCode? (n : Nat) : Option ArithOp := all[n]?

def name : ArithOp → String
  | add => "add" | sub => "sub" | mul => "mul" | div => "div" | mod => "mod"
  | and => "and" | or => "or" | xor => "xor" | shl => "shl" | shr => "shr"
  | min => "min" | max => "max"
  | not => "not" | lnot => "lnot" | neg => "neg"

def ofName? (s : String) : Option ArithOp := all.find? (·.name == s)

/-- Unary operations read their target alone. -/
def isUnary : ArithOp → Bool
  | not | lnot | neg => true
  | _ => false

theorem mem_all (op : ArithOp) : op ∈ all := by cases op <;> decide

theorem ofCode?_code (op : ArithOp) : ofCode? op.code = some op := by cases op <;> rfl

theorem code_lt (op : ArithOp) : op.code < 15 := by cases op <;> decide

end ArithOp

inductive Comparison where
  | eq | neq | gt | gte | lt | lte
  deriving DecidableEq, Repr

namespace Comparison

def all : List Comparison := [eq, neq, gt, gte, lt, lte]

def code : Comparison → Nat
  | eq => 0 | neq => 1 | gt => 2 | gte => 3 | lt => 4 | lte => 5

/-- Added to the code of a comparison with a constant. -/
def immediateBit : Nat := 8

/-- A four-bit field holds a comparison and whether its right side is a constant. -/
def ofCode? (n : Nat) : Option (Comparison × Bool) :=
  (all[n % 8]?).map (·, n / 8 % 2 == 1)

def name : Comparison → String
  | eq => "eq" | neq => "neq" | gt => "gt" | gte => "gte" | lt => "lt" | lte => "lte"

/-- A mnemonic with a final `i` names the form with a constant. -/
def ofMnemonic? (s : String) : Option (Comparison × Bool) :=
  match all.find? (·.name == s) with
  | some op => some (op, false)
  | none => (all.find? (·.name ++ "i" == s)).map (·, true)

def holds (op : Comparison) (lhs rhs : Int) : Bool :=
  match op with
  | eq => lhs == rhs
  | neq => lhs != rhs
  | gt => rhs < lhs
  | gte => rhs ≤ lhs
  | lt => lhs < rhs
  | lte => lhs ≤ rhs

theorem mem_all (op : Comparison) : op ∈ all := by cases op <;> decide

theorem ofCode?_code (op : Comparison) : ofCode? op.code = some (op, false) := by cases op <;> rfl

theorem ofCode?_immediate (op : Comparison) :
    ofCode? (op.code + immediateBit) = some (op, true) := by cases op <;> rfl

end Comparison

inductive StackOp where
  | dup | swap | drop
  /-- Copies the word below the top. -/
  | pick
  | rot
  deriving DecidableEq, Repr

namespace StackOp

def all : List StackOp := [dup, swap, drop, pick, rot]

def pushCode : Nat := 0
def popCode : Nat := 1
def arithCode : Nat := 7
def pushImmediateCode : Nat := 15

def code : StackOp → Nat
  | dup => 2 | swap => 3 | drop => 4 | pick => 5 | rot => 6

def ofCode? (n : Nat) : Option StackOp := if n < 2 then none else all[n - 2]?

def name : StackOp → String
  | dup => "dup" | swap => "swap" | drop => "drop" | pick => "over" | rot => "rot"

def ofName? (s : String) : Option StackOp := all.find? (·.name == s)

theorem mem_all (op : StackOp) : op ∈ all := by cases op <;> decide

theorem ofCode?_code (op : StackOp) : ofCode? op.code = some op := by cases op <;> rfl

end StackOp

/-- Loads and stores at an address held in the instruction; `li` loads that address itself. -/
inductive AccessOp where
  | lw | lb | sw | sb | li
  deriving DecidableEq, Repr

namespace AccessOp

def all : List AccessOp := [lw, lb, sw, sb, li]

def code : AccessOp → Nat
  | lw => 0 | lb => 2 | sw => 4 | sb => 6 | li => 15

/-- The form with an offset register sets the lowest bit. -/
def offsetCode (op : AccessOp) : Nat := op.code ||| 1

/-- A four-bit field holds an operation and whether an offset register follows. -/
def ofCode? : Nat → Option (AccessOp × Bool)
  | 0 => some (lw, false)
  | 1 => some (lw, true)
  | 2 => some (lb, false)
  | 3 => some (lb, true)
  | 4 => some (sw, false)
  | 5 => some (sw, true)
  | 6 => some (sb, false)
  | 7 => some (sb, true)
  | 15 => some (li, false)
  | _ => none

def name : AccessOp → String
  | lw => "lw" | lb => "lb" | sw => "sw" | sb => "sb" | li => "li"

/-- A final `o` names the form with an offset register, which `li` does not have. -/
def ofMnemonic? (s : String) : Option (AccessOp × Bool) :=
  match all.find? (·.name == s) with
  | some op => some (op, false)
  | none => ([lw, lb, sw, sb].find? (·.name ++ "o" == s)).map (·, true)

def isStore : AccessOp → Bool
  | sw | sb => true
  | _ => false

theorem mem_all (op : AccessOp) : op ∈ all := by cases op <;> decide

theorem ofCode?_code (op : AccessOp) : ofCode? op.code = some (op, false) := by cases op <;> rfl

theorem ofCode?_offsetCode {op : AccessOp} (h : op ≠ li) :
    ofCode? op.offsetCode = some (op, true) := by
  cases op <;> first | rfl | exact absurd rfl h

end AccessOp

/-- Loads and stores at an address held in registers. -/
inductive IndexedOp where
  | lwr | lbr | swr | sbr
  deriving DecidableEq, Repr

namespace IndexedOp

def all : List IndexedOp := [lwr, lbr, swr, sbr]

def code : IndexedOp → Nat
  | lwr => 0 | lbr => 1 | swr => 2 | sbr => 3

/-- Only the two low bits count. -/
def ofCode (n : Nat) : IndexedOp := all.getD (n % 4) lwr

def name : IndexedOp → String
  | lwr => "lwr" | lbr => "lbr" | swr => "swr" | sbr => "sbr"

def ofName? (s : String) : Option IndexedOp := all.find? (·.name == s)

def isStore : IndexedOp → Bool
  | swr | sbr => true
  | _ => false

theorem mem_all (op : IndexedOp) : op ∈ all := by cases op <;> decide

theorem ofCode_code (op : IndexedOp) : ofCode op.code = op := by cases op <;> rfl

theorem code_lt (op : IndexedOp) : op.code < 4 := by cases op <;> decide

end IndexedOp

/-- Jumps to an address held in the instruction: always, on a clear test flag, on a set test flag,
and with the return address kept in `ra`. -/
inductive JumpKind where
  | j | jz | jnz | jal
  deriving DecidableEq, Repr

namespace JumpKind

def all : List JumpKind := [j, jz, jnz, jal]

def code : JumpKind → Nat
  | j => 0 | jz => 1 | jnz => 2 | jal => 3

/-- Only the two low bits count. -/
def ofCode (n : Nat) : JumpKind := all.getD (n % 4) j

def name : JumpKind → String
  | j => "j" | jz => "jz" | jnz => "jnz" | jal => "jal"

def ofName? (s : String) : Option JumpKind := all.find? (·.name == s)

theorem mem_all (kind : JumpKind) : kind ∈ all := by cases kind <;> decide

theorem ofCode_code (kind : JumpKind) : ofCode kind.code = kind := by cases kind <;> rfl

theorem code_lt (kind : JumpKind) : kind.code < 4 := by cases kind <;> decide

end JumpKind

end Minicomputer
