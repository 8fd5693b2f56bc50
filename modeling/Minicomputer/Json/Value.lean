import Minicomputer.Text.Hexadecimal

/-!
# JSON values

Values of the data format JSON and their text, indented by two blanks a level.
-/

set_option autoImplicit false

namespace Minicomputer.Json

inductive Value where
  | null
  | bool (b : Bool)
  | integer (n : Int)
  /-- A number written with a fraction or an exponent, or negative zero. -/
  | fraction (literal : String)
  | text (s : String)
  /-- A string literal that names half a surrogate pair and so denotes no text. -/
  | broken
  | array (items : List Value)
  /-- Members in the order of the text; a key may be broken too. -/
  | object (members : List (Option String × Value))

def Value.record (members : List (String × Value)) : Value :=
  .object (members.map fun (k, v) => (some k, v))

def escape (c : Char) : List Char :=
  if c = '"' then ['\\', '"']
  else if c = '\\' then ['\\', '\\']
  else if c = '\x08' then ['\\', 'b']
  else if c = '\x0c' then ['\\', 'f']
  else if c = '\n' then ['\\', 'n']
  else if c = '\r' then ['\\', 'r']
  else if c = '\t' then ['\\', 't']
  else if c.toNat < 0x20 then '\\' :: 'u' :: (Text.hex 4 c.toNat).toList
  else [c]

def literal (s : String) : List Char := '"' :: (s.toList.flatMap escape ++ ['"'])

def brokenLiteral : List Char := "\"\\ud800\"".toList

def newLine (depth : Nat) : List Char := '\n' :: List.replicate (2 * depth) ' '

mutual

/-- The text of a value at a level. Empty arrays and objects take no lines of their own. -/
def Value.write (depth : Nat) : Value → List Char
  | .null => "null".toList
  | .bool b => (if b then "true" else "false").toList
  | .integer n => (toString n).toList
  | .fraction s => s.toList
  | .text s => literal s
  | .broken => brokenLiteral
  | .array [] => ['[', ']']
  | .array (v :: vs) =>
    '[' :: (newLine (depth + 1) ++ v.write (depth + 1) ++ writeItems (depth + 1) vs ++
      newLine depth ++ [']'])
  | .object [] => ['\x7b', '\x7d']
  | .object ((k, v) :: ms) =>
    '\x7b' :: (newLine (depth + 1) ++ writeKey k ++ v.write (depth + 1) ++
      writeMembers (depth + 1) ms ++ newLine depth ++ ['\x7d'])

def writeItems (depth : Nat) : List Value → List Char
  | [] => []
  | v :: vs => ',' :: (newLine depth ++ v.write depth ++ writeItems depth vs)

def writeMembers (depth : Nat) : List (Option String × Value) → List Char
  | [] => []
  | (k, v) :: ms => ',' :: (newLine depth ++ writeKey k ++ v.write depth ++ writeMembers depth ms)

def writeKey : Option String → List Char
  | some k => literal k ++ [':', ' ']
  | none => brokenLiteral ++ [':', ' ']

end

def Value.toText (v : Value) : String := String.ofList (v.write 0)

end Minicomputer.Json
