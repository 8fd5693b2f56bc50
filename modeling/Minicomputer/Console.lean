/-!
# Console

Text printed by the program and not yet taken away, and characters typed and not yet read.
-/

set_option autoImplicit false

namespace Minicomputer

structure Console where
  output : String := ""
  input : List Char := []
  deriving DecidableEq, Inhabited

namespace Console

def print (c : Console) (s : String) : Console := { c with output := c.output ++ s }

/-- The output so far, which leaves none behind. -/
def takeOutput (c : Console) : String × Console := (c.output, { c with output := "" })

def provide (c : Console) (s : String) : Console := { c with input := c.input ++ s.toList }

def hasInput (c : Console) : Bool := !c.input.isEmpty

/-- The next line without its line feed and the carriage returns before it. Input that ends without
a line feed is a line too, unless it is empty. -/
def readLine? (c : Console) : Option (String × Console) :=
  if c.input.isEmpty then none
  else
    let line := c.input.takeWhile (· != '\n')
    let bare := (line.reverse.dropWhile (· == '\r')).reverse
    some (String.ofList bare, { c with input := c.input.drop (line.length + 1) })

def readChar? (c : Console) : Option (Char × Console) :=
  match c.input with
  | [] => none
  | x :: rest => some (x, { c with input := rest })

theorem readLine?_eq_none_iff (c : Console) : c.readLine? = none ↔ c.hasInput = false := by
  unfold readLine? hasInput
  cases c.input <;> simp

theorem readChar?_eq_none_iff (c : Console) : c.readChar? = none ↔ c.hasInput = false := by
  unfold readChar? hasInput
  cases c.input <;> simp

end Console

end Minicomputer
