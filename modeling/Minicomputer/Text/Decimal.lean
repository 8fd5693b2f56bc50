/-!
# Numerals

Reading digits in a base, and signed decimal numbers.
-/

set_option autoImplicit false

namespace Minicomputer.Text

/-- The value of a digit or letter in bases up to sixteen; letters count in either case. -/
def digitValue (c : Char) : Nat :=
  if c.isDigit then c.toNat - 48
  else if 'a' ≤ c ∧ c ≤ 'f' then c.toNat - 87
  else if 'A' ≤ c ∧ c ≤ 'F' then c.toNat - 55
  else 0

/-- The number that digits denote, most significant first; no digits denote zero. -/
def numeral (base : Nat) (digits : List Char) : Nat :=
  digits.foldl (fun n c => n * base + digitValue c) 0

/-- An optional sign and at least one decimal digit, with nothing else around them. -/
def signedDecimal? (s : List Char) : Option Int :=
  let (negative, digits) := match s with
    | '-' :: r => (true, r)
    | '+' :: r => (false, r)
    | _ => (false, s)
  if digits.isEmpty || !digits.all Char.isDigit then none
  else if negative then some (-(numeral 10 digits : Int))
  else some (numeral 10 digits)

/-- A signed decimal that fits in thirty-two bits. -/
def int32? (s : List Char) : Option Int := do
  let n ← signedDecimal? s
  if -2147483648 ≤ n ∧ n ≤ 2147483647 then some n else none

theorem numeral_append (base : Nat) (s : List Char) (c : Char) :
    numeral base (s ++ [c]) = numeral base s * base + digitValue c := by
  simp [numeral]

end Minicomputer.Text
