import Minicomputer.Text.Blank
import Minicomputer.Token.Basic

/-!
# Reading tokens

Every source is a list of tokens that ends with the end mark: what is no token becomes an error
token with a message. Blanks and comments stand between tokens; a comment opens with a leader that
the caller chooses and lasts to the end of its line.
-/

set_option autoImplicit false

namespace Minicomputer.Token

/-- What stands at the front of a source: a comment, or a token by kind and text. It takes the first
character and `more` others. -/
structure Lexeme where
  token? : Option (TokenKind × String)
  more : Nat

/-- Behind its end a source reads as NULs. -/
def opensWith : List Char → List Char → Bool
  | [], _ => true
  | l :: leader, [] => l == '\x00' && opensWith leader []
  | l :: leader, c :: s => l == c && opensWith leader s

def isHexDigit (c : Char) : Bool :=
  c.isDigit || ('a' ≤ c && c ≤ 'f') || ('A' ≤ c && c ≤ 'F')

def isBinaryDigit (c : Char) : Bool := c == '0' || c == '1' || c == '_'

def startsWord (c : Char) : Bool := c.isAlpha || c == '_'

def continuesWord (c : Char) : Bool := c.isAlphanum || c == '_'

def span (p : Char → Bool) (s : List Char) : Nat := (s.takeWhile p).length

/-- A token whose text is the source it takes. -/
def verbatim (kind : TokenKind) (c : Char) (s : List Char) (more : Nat) : Lexeme :=
  ⟨some (kind, String.ofList (c :: s.take more)), more⟩

def number (c : Char) (s : List Char) : Lexeme :=
  match c, s with
  | '0', 'x' :: r => verbatim .hex c s (1 + span isHexDigit r)
  | '0', 'b' :: r => verbatim .binary c s (1 + span isBinaryDigit r)
  | _, _ =>
    let whole := span Char.isDigit s
    match s.drop whole with
    | '.' :: r =>
      let fraction := span Char.isDigit r
      if fraction = 0 then verbatim .integer c s whole
      else verbatim .decimal c s (whole + 1 + fraction)
    | _ => verbatim .integer c s whole

def unescape (c : Char) : Char :=
  match c with
  | 'n' => '\n'
  | 't' => '\t'
  | _ => c

/-- One character of a literal and how much of the source it takes. -/
def literalChar : List Char → Option Char × Nat
  | [] => (none, 0)
  | ['\\'] => (none, 1)
  | '\\' :: c :: _ => (some (unescape c), 2)
  | c :: _ => (some c, 1)

def charLiteral (s : List Char) : Lexeme :=
  let (value, n) := if s.head? = some '\n' then (none, 0) else literalChar s
  match value, (s.drop n).head? with
  | some c, some '\'' => ⟨some (.char, c.toString), n + 1⟩
  | _, _ => ⟨some (.error, "<Unterminated char: '" ++ String.ofList (s.take n) ++ ">"), n⟩

/-- What a string literal denotes and how much it takes, from behind its opening quote. -/
def stringBody : List Char → Option (List Char × Nat)
  | [] => none
  | '"' :: _ => some ([], 1)
  | ['\\'] => none
  | '\\' :: c :: s => (stringBody s).map fun (value, n) => (unescape c :: value, n + 2)
  | c :: s => (stringBody s).map fun (value, n) => (c :: value, n + 1)

def stringLiteral (s : List Char) : Lexeme :=
  match stringBody s with
  | some (value, n) => ⟨some (.string, String.ofList value), n⟩
  | none => ⟨some (.error, "<Unterminated string: \"" ++ String.ofList s ++ ">"), s.length⟩

/-- An identifier, or a label where a colon is directly behind it. -/
def word (c : Char) (s : List Char) : Lexeme :=
  let n := span continuesWord s
  let text := String.ofList (c :: s.take n)
  if (s.drop n).head? = some ':' then ⟨some (.label, text), n + 1⟩
  else ⟨some (.identifier, text), n⟩

def punctuation (c : Char) (s : List Char) : Lexeme :=
  let one (kind : TokenKind) : Lexeme := verbatim kind c s 0
  let withEqual (kind alone : TokenKind) : Lexeme :=
    if s.head? = some '=' then verbatim kind c s 1 else one alone
  match c with
  | '(' => one .leftParen
  | ')' => one .rightParen
  | '\x7b' => one .leftBrace
  | '\x7d' => one .rightBrace
  | '[' => one .leftBracket
  | ']' => one .rightBracket
  | ':' => one .colon
  | ',' => one .comma
  | '.' => one .dot
  | '-' => one .minus
  | '+' => one .plus
  | '/' => one .slash
  | '@' => one .at
  | '*' => one .star
  | '?' => one .questionMark
  | '!' => withEqual .bangEqual .bang
  | '=' => withEqual .equalEqual .equal
  | '>' => withEqual .greaterEqual .greater
  | '<' => withEqual .lessEqual .less
  | _ => ⟨some (.error, "<Unexpected Token: [" ++ c.toString ++ "]>"), 0⟩

/-- The front of a source that starts with `c`, which is not blank. -/
def lexeme (leader : List Char) (c : Char) (s : List Char) : Lexeme :=
  if !leader.isEmpty && opensWith leader (c :: s) then ⟨none, span (· != '\n') s⟩
  else if c.isDigit || (c == '-' && (s.head?.any Char.isDigit)) then number c s
  else if c = '\'' then charLiteral s
  else if c = '"' then stringLiteral s
  else if startsWord c then word c s
  else punctuation c s

/-- The tokens of a source that starts at a given place. -/
def scanFrom (leader : List Char) (p : Position) : List Char → List Token
  | [] => [⟨.eof, "", p, p.offset⟩]
  | c :: s =>
    if Text.isBlank c then scanFrom leader (p.next c) s
    else
      let front := lexeme leader c s
      let q := p.after (c :: s.take front.more)
      match front.token? with
      | none => scanFrom leader q (s.drop front.more)
      | some (kind, text) => ⟨kind, text, p, q.offset⟩ :: scanFrom leader q (s.drop front.more)
termination_by s => s.length
decreasing_by all_goals simp only [List.length_cons, List.length_drop]; omega

def defaultLeader : String := "#"

/-- The tokens of a source. An empty leader turns comments off. -/
def scan (source : String) (leader : String := defaultLeader) : List Token :=
  scanFrom leader.toList {} source.toList

end Minicomputer.Token
