import Minicomputer.Files
import Minicomputer.Instruction.Operation
import Minicomputer.Token.Basic

/-!
# Diagnostics

What can be wrong with assembly text, and the report of it. Every diagnostic stands at a token.
-/

set_option autoImplicit false

namespace Minicomputer.Assembly

inductive Cause where
  | unexpectedToken
  | duplicateLabel
  | unknownInstruction
  | unknownNote (name : String)
  | unknownDirective (name : String)
  | nonAsciiString
  | unreadableImage (path : String) (error : FileError)
  | registerMissing
  | notRegister
  | notWriteable
  | notReadable
  | notOffset
  | integerMissing
  | notInteger
  | outOfRange (low high : Int)
  | addressMissing
  | notAddress
  | unresolvedLabel
  | operationMissing
  | notOperation
  | unaryImmediate (op : ArithOp)
  | systemCallMissing
  | unknownSystemCall
  | stringMissing
  | notString
  | tooManyDebugStrings
  | tooLarge (size limit : Nat)
  deriving DecidableEq, Repr

def alreadyDefined (name : String) : String := "Label already defined: " ++ name

structure Diagnostic where
  token : Token
  cause : Cause
  deriving DecidableEq, Repr

namespace Diagnostic

def message (d : Diagnostic) : String :=
  match d.cause with
  | .unexpectedToken => "Unexpected Token: " ++ d.token.shown
  | .duplicateLabel => alreadyDefined d.token.text
  | .unknownInstruction => "Unknown instruction: " ++ d.token.text
  | .unknownNote name => "Unknown meta directive: @" ++ name
  | .unknownDirective name => "Unknown directive: ." ++ name
  | .nonAsciiString => "String must be ASCII"
  | .unreadableImage path error => "Unable to load image " ++ path ++ ": " ++ error.message
  | .registerMissing => "Register required"
  | .notRegister => "Invalid Register : " ++ d.token.shown
  | .notWriteable => "Register not writeable : " ++ d.token.shown
  | .notReadable => "Register not readable : " ++ d.token.shown
  | .notOffset => "Register not usable as an offset : " ++ d.token.shown
  | .integerMissing => "Integer value required"
  | .notInteger => "Integer value required: " ++ d.token.shown
  | .outOfRange low high =>
    "Integer value out of range: " ++ toString low ++ "-" ++ toString high
  | .addressMissing => "Integer or label required"
  | .notAddress => "Integer or label required: " ++ d.token.shown
  | .unresolvedLabel => "Unresolved label: " ++ d.token.text
  | .operationMissing => "ALU operation required"
  | .notOperation => "ALU operation required: " ++ d.token.shown
  | .unaryImmediate op => "Unary operation cannot take an immediate: " ++ op.name
  | .systemCallMissing => "Syscall required"
  | .unknownSystemCall => "Unknown syscall : " ++ d.token.shown
  | .stringMissing => "String required"
  | .notString => "String required: " ++ d.token.shown
  | .tooManyDebugStrings => "Too many debug strings"
  | .tooLarge size limit =>
    "Program does not fit in memory: " ++ toString size ++ " bytes, limit " ++ toString limit

/-- Columns are shown from one. -/
def text (d : Diagnostic) : String :=
  "line " ++ toString d.token.line ++ ":" ++ toString (d.token.start.column + 1) ++ ": " ++ d.message

/-- Whether one diagnostic stands no later in the source than another. -/
def notAfter (d e : Diagnostic) : Bool :=
  d.token.line < e.token.line ||
    (d.token.line == e.token.line && d.token.start.column ≤ e.token.start.column)

/-- Diagnostics in the order of the source; those at one place stay in their order. -/
def inOrder (ds : List Diagnostic) : List Diagnostic := ds.mergeSort notAfter

def report (ds : List Diagnostic) : String :=
  toString ds.length ++ " assembly error" ++ (if ds.length = 1 then "" else "s") ++
    "".intercalate (ds.map fun d => "\n  " ++ d.text)

end Diagnostic

end Minicomputer.Assembly
