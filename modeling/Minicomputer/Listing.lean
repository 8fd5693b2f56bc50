import Minicomputer.Instruction.Text
import Minicomputer.Memory
import Minicomputer.Program.Basic

/-!
# Listings

Code bytes as rows of text. A row holds one instruction, and the rows follow each other without a
gap from the first byte to the last.
-/

set_option autoImplicit false

namespace Minicomputer

structure Row where
  address : Nat
  bytes : List Byte
  text : String
  deriving DecidableEq, Repr

namespace Listing

/-- The text of the instruction at the front of some bytes and the size that it asks for. A second
word that is missing reads as zero. -/
def front : List Byte → String × Nat
  | high :: low :: rest =>
    let w := Word.ofBytes high low
    if Instruction.isLong w then
      match rest with
      | h :: l :: _ => (Instruction.textOfWords w (Word.ofBytes h l), 4)
      | _ => (Instruction.textOfWords w 0, 4)
    else (Instruction.textOfWords w 0, 2)
  | _ => ("??", 1)

def textAt (bytes : List Byte) (offset : Nat) : String × Nat := front (bytes.drop offset)

theorem front_size_pos (bytes : List Byte) : 0 < (front bytes).2 := by
  unfold front
  split
  · dsimp only
    split
    · split <;> simp
    · simp
  · simp

def rows (address : Nat) : List Byte → List Row
  | [] => []
  | b :: rest =>
    let (text, size) := front (b :: rest)
    ⟨address, (b :: rest).take size, text⟩ :: rows (address + size) (rest.drop (size - 1))
termination_by bytes => bytes.length
decreasing_by simp only [List.length_cons, List.length_drop]; omega

def hexColumn (bytes : List Byte) : String := " ".intercalate (bytes.map fun b => Text.hex 2 b.toNat)

def Row.line (r : Row) : String :=
  Text.hex 4 r.address ++ ": " ++ Text.padRight 12 (hexColumn r.bytes) ++ " " ++ r.text ++ "\n"

def ofCode (code : List Byte) : String := "".intercalate ((rows 0 code).map Row.line)

/-- A row with the source line that its instruction comes from, where that is known. -/
def annotated (line? : Option UInt32) (r : Row) : String :=
  let front := Text.hex 4 r.address ++ ": "
  match line? with
  | some line => front ++ Text.padRight 24 r.text ++ " # line " ++ toString line.toNat ++ "\n"
  | none => front ++ r.text ++ "\n"

/-- The character of a byte in a dump, a dot for what has no ASCII form. -/
def dumpChar (b : Byte) : Char := if 0x20 ≤ b.toNat ∧ b.toNat < 0x7f then b.char else '.'

/-- Rows of eight bytes with their characters. -/
def dump (address : Nat) (bytes : List Byte) : List String :=
  if bytes.isEmpty then []
  else
    let chunk := bytes.take 8
    (Text.hex 4 address ++ ": " ++ Text.padRight 24 (hexColumn chunk) ++ " " ++
      String.ofList (chunk.map dumpChar) ++ "\n") :: dump (address + 8) (bytes.drop 8)
termination_by bytes.length
decreasing_by
  rename_i h
  have : bytes ≠ [] := by simpa using h
  have := List.length_pos_iff.mpr this
  simp only [List.length_drop]
  omega

/-- The listing of a whole program. The notes for debugging count addresses modulo `2 ^ 16`. -/
def ofProgram (p : Program) : String :=
  let head := "# " ++ p.sourceName ++ " (" ++ toString p.code.length ++ " code bytes, " ++
    toString p.data.length ++ " data bytes)\n"
  let line? (r : Row) := p.debugInfo.bind fun d => d.assemblyLine? (r.address % 65536)
  let code := (rows 0 p.code).map fun r => annotated (line? r) r
  let data := if p.data.isEmpty then [] else ".data\n" :: dump p.code.length p.data
  "".intercalate (head :: code ++ data)

end Listing

end Minicomputer
