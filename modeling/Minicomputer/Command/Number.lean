import Minicomputer.Text.Decimal

/-!
# Numbers on the command line

Decimal numbers as values of options, with the reason why a text is none.
-/

set_option autoImplicit false

namespace Minicomputer.Command

inductive NumberError where
  | missing
  | notDigit
  | tooLarge
  | tooSmall
  | outside (n : Int) (largest : Nat)
  deriving DecidableEq, Repr

def NumberError.message : NumberError → String
  | missing => "cannot parse integer from empty string"
  | notDigit => "invalid digit found in string"
  | tooLarge => "number too large to fit in target type"
  | tooSmall => "number too small to fit in target type"
  | outside n largest => toString n ++ " is not in 0..=" ++ toString largest

/-- The number of some digits. What is wrong first from the left decides the error. -/
def magnitude (largest : Nat) (excess : NumberError) (digits : List Char) :
    Except NumberError Nat :=
  digits.foldlM (fun n c =>
    let m := n * 10 + Text.digitValue c
    if !c.isDigit then throw .notDigit else if largest < m then throw excess else pure m) 0

/-- A number up to a largest one, which a plus sign may stand in front of. -/
def natural (largest : Nat) (s : String) : Except NumberError Nat :=
  match s.toList with
  | [] => .error .missing
  | '+' :: c :: r => magnitude largest .tooLarge (c :: r)
  | r => magnitude largest .tooLarge r

def largestInteger : Nat := 9223372036854775807

def integer (s : String) : Except NumberError Int :=
  match s.toList with
  | [] => .error .missing
  | '-' :: c :: r =>
    (magnitude (largestInteger + 1) .tooSmall (c :: r)).map fun n => -(n : Int)
  | '+' :: c :: r => (magnitude largestInteger .tooLarge (c :: r)).map Int.ofNat
  | r => (magnitude largestInteger .tooLarge r).map Int.ofNat

/-- A signed number that lies between zero and a largest one. -/
def integerUpTo (largest : Nat) (s : String) : Except NumberError Nat := do
  let n ← integer s
  if 0 ≤ n ∧ n ≤ largest then return n.toNat else throw (.outside n largest)

end Minicomputer.Command
