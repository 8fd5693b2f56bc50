import Minicomputer.Assembly.Diagnostic

/-!
# Data

The lines of the data segment.
-/

set_option autoImplicit false

namespace Minicomputer.Assembly

inductive DataValue where
  /-- Text with a NUL behind it. -/
  | string (s : String)
  | word (w : Word)
  | words (count : Nat)
  | bytes (count : Nat)
  | image (index : Word)
  /-- Nothing, for labels at the end of a program. -/
  | empty
  deriving DecidableEq

namespace DataValue

/-- The space that is set aside. Sizes are words and wrap like them. -/
def size : DataValue → Nat
  | string s => ((bytesOfText s).length + 1) % 65536
  | word _ | image _ => 2
  | words count => 2 * count
  | bytes count => count
  | empty => 0

def encode : DataValue → List Byte
  | string s => bytesOfText s ++ [0]
  | word w => w.bytes
  | words count => List.replicate (2 * count) 0
  | bytes count => List.replicate count 0
  | image index => index.bytes
  | empty => []

/-- The space set aside is that taken, unless a text is too long to be counted in a word. -/
theorem encode_length (v : DataValue) (h : ∀ s, v = string s → (bytesOfText s).length < 65535) :
    v.encode.length = v.size := by
  cases v with
  | string s =>
    have := h s rfl
    simp only [encode, size, List.length_append, List.length_singleton]
    omega
  | words n => simp [encode, size]
  | bytes n => simp [encode, size]
  | _ => rfl

end DataValue

structure Datum where
  /-- The first token behind the labels. -/
  anchor : Token
  value : DataValue
  diagnostics : List Diagnostic
  deriving DecidableEq

def Datum.size (d : Datum) : Nat := d.value.size

end Minicomputer.Assembly
