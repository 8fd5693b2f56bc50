import Minicomputer.Assembly.Mnemonic
import Minicomputer.Assembly.Statement
import Minicomputer.SystemCall

/-!
# Operands

Reading the operands of a statement from its tokens. A reading step that finds no proper operand
complains and goes on with a stand-in, so that one run finds all that is wrong with a line.
-/

set_option autoImplicit false

namespace Minicomputer.Assembly

/-- The operands not yet read and the complaints so far. -/
structure Operands where
  /-- Where complaints about missing operands stand. -/
  anchor : Token
  rest : List Token
  diagnostics : List Diagnostic := []

abbrev Reading (α : Type) := StateM Operands α

namespace Reading

def complain (t : Token) (c : Cause) : Reading Unit :=
  modify fun s => { s with diagnostics := s.diagnostics ++ [⟨t, c⟩] }

def complainAtAnchor (c : Cause) : Reading Unit := do complain (← get).anchor c

def peek? : Reading (Option Token) := return (← get).rest.head?

def next? : Reading (Option Token) := do
  let s ← get
  set { s with rest := s.rest.tail }
  return s.rest.head?

def skipRest : Reading Unit := modify fun s => { s with rest := [] }

def namedRegister? (t : Token) : Option Register :=
  if t.kind = .identifier then Register.ofName? t.text else none

def isConstant (t : Token) : Bool := t.isNumber || t.kind = .char

/-- The value of a number or of a character's code point. -/
def constant? (t : Token) : Option Int :=
  match t.kind with
  | .char => t.text.toList.head?.map fun c => c.toNat
  | _ => t.value?

def register (allowed : Register → Bool) (otherwise : Cause) : Reading Register := do
  match ← next? with
  | none =>
    complainAtAnchor .registerMissing
    return .t0
  | some t =>
    match namedRegister? t with
    | none =>
      complain t .notRegister
      return .t0
    | some r =>
      if !allowed r then complain t otherwise
      return r

def writeable : Reading Register := register Register.isWriteable .notWriteable

def readable : Reading Register := register Register.isReadable .notReadable

def registerFollows : Reading Bool :=
  return (← peek?).any fun t => (namedRegister? t).isSome

/-- The stack register may be left out and is `sp` then. -/
def stackRegister : Reading Register := do
  if ← registerFollows then writeable else return .sp

def integer (low high : Int) : Reading Int := do
  match ← next? with
  | none =>
    complainAtAnchor .integerMissing
    return 0
  | some t =>
    if !isConstant t then
      complain t .notInteger
      return 0
    else
      match constant? t with
      | some n =>
        if low ≤ n ∧ n ≤ high then return n
        else
          complain t (.outOfRange low high)
          return 0
      | none =>
        complain t (.outOfRange low high)
        return 0

def constantFollows : Reading Bool := return (← peek?).any isConstant

/-- Constants of sixteen bits are written as signed or unsigned numbers. -/
def word : Reading Word := return Word.ofInt (← integer (-32768) 65535)

def nibble : Reading Byte := return UInt8.ofNat (← integer 0 15).toNat

def address (low high : Int) : Reading AddressOperand := do
  if ← constantFollows then return .value (Word.ofInt (← integer low high))
  match ← next? with
  | none =>
    complainAtAnchor .addressMissing
    return .value 0
  | some t =>
    if t.kind = .identifier then return .label t
    complain t .notAddress
    return .value 0

def arithOp : Reading ArithOp := do
  match ← next? with
  | none =>
    complainAtAnchor .operationMissing
    return .add
  | some t =>
    match if t.kind = .identifier then ArithOp.ofName? t.text.toLower else none with
    | some op => return op
    | none =>
      complain t .notOperation
      return .add

def systemCall : Reading Byte := do
  match ← next? with
  | none =>
    complainAtAnchor .systemCallMissing
    return 0
  | some t =>
    match if t.kind = .identifier then SystemCall.ofName? t.text else none with
    | some call => return call.selector
    | none =>
      complain t .unknownSystemCall
      return 0

def string : Reading String := do
  match ← next? with
  | none =>
    complainAtAnchor .stringMissing
    return ""
  | some t =>
    if t.kind = .string then return t.text
    complain t .notString
    return ""

/-- The offset register of an indexed access, which may be left out. The encoding has no place for
`pc` there. -/
def offsetRegister : Reading (Option Register) := do
  if ← registerFollows then
    let token ← peek?
    let r ← readable
    if r = .pc then
      token.forM fun t => complain t .notOffset
      return none
    return some r
  return none

/-- The arithmetic operation of a statement with a constant, which must not be unary. -/
def binaryOp : Reading ArithOp := do
  let token ← peek?
  let op ← arithOp
  if op.isUnary then token.forM fun t => complain t (.unaryImmediate op)
  return op

def lastDebugString : Nat := 255

/-- The operation of a statement, where `debugStrings` counts the debug strings before it. -/
def operation (debugStrings : Nat) : Mnemonic → Reading Operation
  | .sys => return .fixed (.sys (← systemCall))
  | .mv => return .fixed (.mv (← writeable) (← readable))
  | .inc => do
    let target ← writeable
    return .fixed (.inc target (← if ← constantFollows then nibble else pure 1))
  | .dec => do
    let target ← writeable
    return .fixed (.dec target (← if ← constantFollows then nibble else pure 1))
  | .seti => return .fixed (.seti (← writeable) (← nibble))
  | .mcp => do
    let source ← readable
    let target ← readable
    return .fixed (.mcp source target (Word.ofInt (← integer 0 4096)))
  | .debug => do
    let text ← string
    if lastDebugString < debugStrings then complainAtAnchor .tooManyDebugStrings
    return .debug (UInt8.ofNat debugStrings) text
  | .nop => return .fixed .nop
  | .imm => return .fixed (.arithImm (← binaryOp) (← writeable) (← word))
  | .arith op => do
    let target ← writeable
    return .fixed (.arith op target (← if op.isUnary then pure target else readable))
  | .push => return .fixed (.push (← readable) (← stackRegister))
  | .pop => return .fixed (.pop (← writeable) (← stackRegister))
  | .sop => return .fixed (.sop (← arithOp) (← stackRegister))
  | .rearrange op => return .fixed (.rearrange op (← stackRegister))
  | .pushi => return .fixed (.pushImm (← word) (← stackRegister))
  | .test op false => return .fixed (.test op (← readable) (← readable))
  | .test op true => return .fixed (.testImm op (← readable) (← nibble))
  | .access op withOffset => do
    let reg ← if op.isStore then readable else writeable
    let offset ← if withOffset then some <$> readable else pure none
    let a ← if op = .li then address (-32768) 65535 else address 0 lastAddress
    return .access op reg offset a
  | .indexed op => do
    let reg ← if op.isStore then readable else writeable
    let base ← readable
    return .fixed (.indexed op reg base (← offsetRegister))
  | .jump kind => return .jump kind (← address 0 lastAddress)
  | .jr => return .fixed (.jumpReg (← readable))

def note? (name : String) : Option (Reading Note) :=
  match name with
  | "file" => some do return .file (← string)
  | "line" => some do return .line (UInt32.ofNat (← integer 0 2147483647).toNat)
  | "global" => some do
    let name ← string
    let location ← integer 0 65535
    return .global ⟨name, Int32.ofInt location, ← string⟩
  | "local" => some do
    let name ← string
    let offset ← integer (-32768) 32767
    return .enter ⟨name, Int32.ofInt offset, ← string⟩
  | "endlocal" => some do return .leave (← string)
  | _ => none

/-- Reads operands to their end: the first one left over is unexpected. -/
def all {α : Type} (anchor : Token) (tokens : List Token) (r : Reading α) : α × List Diagnostic :=
  let (a, s) := r.run ⟨anchor, tokens, []⟩
  (a, s.diagnostics ++ (s.rest.head?.map fun t => ⟨t, .unexpectedToken⟩).toList)

end Reading

end Minicomputer.Assembly
