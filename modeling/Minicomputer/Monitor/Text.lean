import Minicomputer.Machine.Execute
import Minicomputer.Text.Blank
import Minicomputer.Text.Decimal

/-!
# Text in system calls

Formats with conversions and numbers at the front of a text.
-/

set_option autoImplicit false

namespace Minicomputer.Monitor

/-- Fills in a format. The conversions `%d`, `%c` and `%s` take the registers in order; with none
left, and in front of any other character, the percent sign is ordinary. -/
def format {σ : Type} (arguments : List Register) : List Char → Action σ (List Char)
  | [] => pure []
  | '%' :: '%' :: s => return '%' :: (← format arguments s)
  | '%' :: c :: s =>
    match conversion? c, arguments with
    | some convert, r :: rest => do
      let text ← convert (← Action.register r)
      return text.toList ++ (← format rest s)
    | _, _ => return '%' :: c :: (← format arguments s)
  | c :: s => return c :: (← format arguments s)
where
  conversion? (c : Char) : Option (Word → Action σ String) :=
    match c with
    | 'd' => some fun w => return toString w.signed
    | 'c' => some fun w => return w.low.char.toString
    | 's' => some fun w => Action.loadText w.toNat
    | _ => none

/-- The number that digits denote, in thirty-two bits that wrap. -/
def accumulate (digits : List Char) : Int32 :=
  digits.foldl (fun n c => n * 10 + (Int32.ofNat c.toNat - 48)) 0

/-- Whether a minus sign stands at the front of a text, and the text without a sign. -/
def splitSign : List Char → Bool × List Char
  | '-' :: s => (true, s)
  | '+' :: s => (false, s)
  | s => (false, s)

/-- The number at the front of a text behind blanks, cut to a word. No digits denote zero. -/
def leadingInteger (s : List Char) : Word :=
  let (negative, digits) := splitSign (Text.trimLeft s)
  let n := accumulate (digits.takeWhile Char.isDigit)
  (if negative then -n else n).toInt16.toUInt16

/-- A line that holds a signed decimal of thirty-two bits, modulo `2 ^ 16`. Any other is zero. -/
def lineInteger (s : List Char) : Word := Word.ofInt ((Text.int32? (Text.trim s)).getD 0)

end Minicomputer.Monitor
