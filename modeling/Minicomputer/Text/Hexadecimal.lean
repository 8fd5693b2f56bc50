/-!
# Hexadecimal text

Numbers written with lowercase digits and padded with zeros on the left.
-/

set_option autoImplicit false

namespace Minicomputer.Text

def padLeft (c : Char) (width : Nat) (s : List Char) : List Char :=
  List.replicate (width - s.length) c ++ s

/-- Text filled up with blanks on the right. -/
def padRight (width : Nat) (s : String) : String :=
  s ++ String.ofList (List.replicate (width - s.length) ' ')

def hex (width n : Nat) : String := String.ofList (padLeft '0' width (Nat.toDigits 16 n))

/-- The digits after the mark `0x`. -/
def marked (width n : Nat) : String := "0x" ++ hex width n

end Minicomputer.Text
