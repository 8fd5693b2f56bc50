import Minicomputer.Register

/-!
# Programs

What the assembler makes and the machine loads: code and data that lie one behind the other from
address zero, pictures, and notes for debugging.
-/

set_option autoImplicit false

namespace Minicomputer

structure GlobalVariable where
  name : String
  location : Int32
  typeName : String
  deriving DecidableEq

/-- A variable at a distance from the frame pointer. -/
structure LocalVariable where
  name : String
  offset : Int32
  typeName : String
  deriving DecidableEq

/-- Where the code comes from, by byte of code: the assembly text, and the source that the assembly
text was made from. -/
structure DebugInfo where
  assemblyFile : String
  assemblySource : String
  assemblyLines : Array UInt32
  sourceFile : String
  sourceLines : Array UInt32
  globals : List GlobalVariable
  locals : Array (List LocalVariable)
  debugStrings : List String
  deriving DecidableEq

namespace DebugInfo

def assemblyLine? (d : DebugInfo) (address : Nat) : Option UInt32 := d.assemblyLines[address]?

/-- Line zero stands for no line. -/
def sourceLine? (d : DebugInfo) (address : Nat) : Option UInt32 :=
  (d.sourceLines[address]?).filter (0 < ·)

/-- A dollar sign with the name of a readable register behind it becomes the register's value. The
name is the longest run of letters and digits; all other text stays as it is. -/
def expand (registers : RegisterFile) : List Char → List Char
  | [] => []
  | c :: s =>
    if c = '$' then
      let name := s.takeWhile Char.isAlphanum
      match (Register.ofName? (String.ofList name)).filter (·.isReadable) with
      | some r =>
        (toString (registers.get r).signed).toList ++ expand registers (s.drop name.length)
      | none => c :: expand registers s
    else c :: expand registers s
termination_by s => s.length
decreasing_by all_goals simp only [List.length_cons, List.length_drop]; omega

/-- A debug string with the values of the registers filled in. -/
def debugString? (d : DebugInfo) (index : Nat) (registers : RegisterFile) : Option String :=
  (d.debugStrings[index]?).map fun s => String.ofList (expand registers s.toList)

end DebugInfo

structure Program where
  format : String
  code : List Byte
  data : List Byte
  graphics : List (List Byte)
  sourceName : String
  debugInfo : Option DebugInfo
  deriving DecidableEq

namespace Program

def formatName : String := "orc1"

def plain (code data : List Byte) (sourceName : String) : Program :=
  ⟨formatName, code, data, [], sourceName, none⟩

/-- The bytes that the loaded program takes. -/
def imageSize (p : Program) : Nat := p.code.length + p.data.length

end Program

end Minicomputer
