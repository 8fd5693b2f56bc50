import Minicomputer.Word

/-!
# Random numbers

A generator with a state of 64 bits that is never zero.
-/

set_option autoImplicit false

namespace Minicomputer

structure Generator where
  state : UInt64
  deriving DecidableEq, Repr, Inhabited

namespace Generator

/-- Zero would stay zero and stands for another seed. -/
def ofSeed (seed : UInt64) : Generator := ⟨if seed = 0 then 0x9E3779B97F4A7C15 else seed⟩

def mixLeft (x : UInt64) (n : UInt64) : UInt64 := x ^^^ (x <<< n)

def mixRight (x : UInt64) (n : UInt64) : UInt64 := x ^^^ (x >>> n)

/-- The next state, which is also the number drawn. -/
def next (g : Generator) : Generator := ⟨mixLeft (mixRight (mixLeft g.state 13) 7) 17⟩

/-- Two signed words in ascending order, with more bits than they need. -/
def ordered (a b : Word) : Int32 × Int32 :=
  let a := a.toInt16.toInt32
  let b := b.toInt16.toInt32
  if a ≤ b then (a, b) else (b, a)

/-- How many numbers there are from `low` to `high`. -/
def span (low high : Int32) : UInt64 := (high - low + 1).toInt64.toUInt64

/-- A number from one of two signed words to the other, in either order. -/
def inRange (g : Generator) (a b : Word) : Word × Generator :=
  let (low, high) := ordered a b
  let g := g.next
  let n := low + (g.state % span low high).toUInt32.toInt32
  (n.toInt16.toUInt16, g)

end Generator

end Minicomputer
