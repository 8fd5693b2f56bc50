import Minicomputer.Text.Decimal
import Minicomputer.Text.Quoted

/-!
# Tokens

The tokens of assembly text, each with its place in the source: offsets count characters, lines
start at one and columns at zero.
-/

set_option autoImplicit false

namespace Minicomputer

inductive TokenKind where
  | leftParen | rightParen | leftBrace | rightBrace | leftBracket | rightBracket
  | colon | comma | dot | minus | plus | slash | at | star | questionMark
  | bang | bangEqual | equal | equalEqual | greater | greaterEqual | less | lessEqual
  | identifier
  /-- An identifier with a colon directly behind it; the text leaves the colon out. -/
  | label
  /-- The text is what the literal denotes. -/
  | string
  /-- The text is the character that the literal denotes. -/
  | char
  | integer | decimal | hex | binary
  /-- Source text that is no token; the text is a message. -/
  | error
  | eof
  deriving DecidableEq, Repr, Inhabited

structure Position where
  offset : Nat := 0
  line : Nat := 1
  column : Nat := 0
  deriving DecidableEq, Repr, Inhabited

namespace Position

def next (p : Position) (c : Char) : Position :=
  if c = '\n' then ⟨p.offset + 1, p.line + 1, 0⟩ else ⟨p.offset + 1, p.line, p.column + 1⟩

def after (p : Position) (s : List Char) : Position := s.foldl next p

theorem after_append (p : Position) (s t : List Char) :
    p.after (s ++ t) = (p.after s).after t := List.foldl_append

theorem offset_after (p : Position) (s : List Char) :
    (p.after s).offset = p.offset + s.length := by
  induction s generalizing p with
  | nil => rfl
  | cons c s ih =>
    have h : (p.next c).offset = p.offset + 1 := by unfold next; split <;> rfl
    show ((p.next c).after s).offset = _
    rw [ih, h, List.length_cons]
    omega

end Position

structure Token where
  kind : TokenKind
  text : String
  start : Position
  stop : Nat
  deriving DecidableEq, Repr, Inhabited

namespace Token

def line (t : Token) : Nat := t.start.line

def isNumber (t : Token) : Bool :=
  match t.kind with
  | .integer | .hex | .binary => true
  | _ => false

/-- Whether the second token starts where the first one ends. -/
def adjacent (t next : Token) : Bool := t.stop == next.start.offset

def pattern? (base : Nat) (digits : List Char) : Option Int :=
  let n := Text.numeral base digits
  if digits.isEmpty || 65535 < n then none else some n

/-- The value of a number: decimal ones are signed and fit in thirty-two bits, the others are
patterns of sixteen bits. -/
def value? (t : Token) : Option Int :=
  match t.kind with
  | .integer => Text.int32? t.text.toList
  | .hex => pattern? 16 (t.text.toList.drop 2)
  | .binary => pattern? 2 ((t.text.toList.drop 2).filter (· != '_'))
  | _ => none

def shown (t : Token) : String :=
  match t.kind with
  | .string => Text.quoted t.text
  | .label => t.text ++ ":"
  | _ => t.text

/-- A token of another kind and text at the same place. -/
def inPlace (t : Token) (kind : TokenKind) (text : String) : Token := { t with kind, text }

end Token

end Minicomputer
