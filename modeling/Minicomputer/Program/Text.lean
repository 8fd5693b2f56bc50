import Minicomputer.Json.Read
import Minicomputer.Program.Basic
import Minicomputer.Text.Quoted

/-!
# Programs as text

A program is stored as a JSON object. On reading, a structure is an object with its fields as
members, in any order and with others between them, or the list of its field values in order. A
field must not come twice, and numbers are integers in range.
-/

set_option autoImplicit false

namespace Minicomputer

open Json (Value)

/-! ## Writing -/

def numbers {α : Type} (f : α → Int) (xs : List α) : Value :=
  .array (xs.map fun x => .integer (f x))

def GlobalVariable.toJson (g : GlobalVariable) : Value :=
  .record [("name", .text g.name), ("location", .integer g.location.toInt), ("type", .text g.typeName)]

def LocalVariable.toJson (l : LocalVariable) : Value :=
  .record [("name", .text l.name), ("offset", .integer l.offset.toInt), ("type", .text l.typeName)]

def DebugInfo.toJson (d : DebugInfo) : Value :=
  .record [
    ("assemblyFile", .text d.assemblyFile),
    ("assemblySource", .text d.assemblySource),
    ("assemblyLineNumbers", numbers (·.toNat) d.assemblyLines.toList),
    ("originalFile", .text d.sourceFile),
    ("originalLineNumbers", numbers (·.toNat) d.sourceLines.toList),
    ("globals", .array (d.globals.map GlobalVariable.toJson)),
    ("locals", .array (d.locals.toList.map fun ls => .array (ls.map LocalVariable.toJson))),
    ("debugStrings", .array (d.debugStrings.map .text))]

namespace Program

def toJson (p : Program) : Value :=
  .record ([
    ("format", .text p.format),
    ("code", numbers (·.toNat) p.code),
    ("data", numbers (·.toNat) p.data),
    ("graphics", .array (p.graphics.map (numbers (·.toNat)))),
    ("sourceName", .text p.sourceName)] ++
    match p.debugInfo with
    | some d => [("debugInfo", d.toJson)]
    | none => [])

def toText (p : Program) : String := p.toJson.toText

end Program

/-! ## Reading -/

namespace Json.Value

def text? : Value → Option String
  | .text s => some s
  | _ => none

def list? {α : Type} (item? : Value → Option α) : Value → Option (List α)
  | .array vs => vs.mapM item?
  | _ => none

def integer? (low high : Int) : Value → Option Int
  | .integer n => if low ≤ n ∧ n ≤ high then some n else none
  | _ => none

def byte? (v : Value) : Option Byte := (v.integer? 0 255).map fun n => UInt8.ofNat n.toNat

def uint32? (v : Value) : Option UInt32 :=
  (v.integer? 0 4294967295).map fun n => UInt32.ofNat n.toNat

def int32? (v : Value) : Option Int32 := (v.integer? (-2147483648) 2147483647).map Int32.ofInt

/-- The members of an object whose keys are among `names`, each at most once, or the leading ones
from a list. All keys must denote text. -/
def fields? (names : List String) : Value → Option (List (String × Value))
  | .object members => do
    let keyed ← members.mapM fun (k, v) => k.map (·, v)
    let known := keyed.filter fun (k, _) => names.contains k
    if (known.map Prod.fst).Nodup then some known else none
  | .array vs => if vs.length ≤ names.length then some (names.zip vs) else none
  | _ => none

end Json.Value

def GlobalVariable.ofJson? (v : Value) : Option GlobalVariable := do
  let fields ← v.fields? ["name", "location", "type"]
  let name ← (← fields.lookup "name").text?
  let location ← (← fields.lookup "location").int32?
  let typeName ← (← fields.lookup "type").text?
  return { name, location, typeName }

def LocalVariable.ofJson? (v : Value) : Option LocalVariable := do
  let fields ← v.fields? ["name", "offset", "type"]
  let name ← (← fields.lookup "name").text?
  let offset ← (← fields.lookup "offset").int32?
  let typeName ← (← fields.lookup "type").text?
  return { name, offset, typeName }

def DebugInfo.ofJson? (v : Value) : Option DebugInfo := do
  let fields ← v.fields? ["assemblyFile", "assemblySource", "assemblyLineNumbers", "originalFile",
    "originalLineNumbers", "globals", "locals", "debugStrings"]
  let assemblyFile ← (← fields.lookup "assemblyFile").text?
  let assemblySource ← (← fields.lookup "assemblySource").text?
  let assemblyLines ← (← fields.lookup "assemblyLineNumbers").list? Value.uint32?
  let sourceFile ← (← fields.lookup "originalFile").text?
  let sourceLines ← (← fields.lookup "originalLineNumbers").list? Value.uint32?
  let globals ← (← fields.lookup "globals").list? GlobalVariable.ofJson?
  let locals ← (← fields.lookup "locals").list? (Value.list? LocalVariable.ofJson?)
  let debugStrings ← (← fields.lookup "debugStrings").list? Value.text?
  return {
    assemblyFile, assemblySource, assemblyLines := assemblyLines.toArray
    sourceFile, sourceLines := sourceLines.toArray
    globals, locals := locals.toArray, debugStrings }

namespace Program

def notes? : Option Value → Option (Option DebugInfo)
  | none => some none
  | some .null => some none
  | some v => (DebugInfo.ofJson? v).map some

def pictures? : Option Value → Option (List (List Byte))
  | none => some []
  | some v => v.list? (Value.list? Value.byte?)

/-- The program in a value, with any name for its encoding. -/
def ofJson? (v : Value) : Option Program := do
  let fields ← v.fields? ["format", "code", "data", "graphics", "sourceName", "debugInfo"]
  let format ← (← fields.lookup "format").text?
  let code ← (← fields.lookup "code").list? Value.byte?
  let data ← (← fields.lookup "data").list? Value.byte?
  let graphics ← pictures? (fields.lookup "graphics")
  let sourceName ← (← fields.lookup "sourceName").text?
  let debugInfo ← notes? (fields.lookup "debugInfo")
  return { format, code, data, graphics, sourceName, debugInfo }

inductive ReadError where
  | malformed
  | unsupportedFormat (name : String)
  deriving DecidableEq, Repr

def ReadError.message : ReadError → String
  | malformed => "malformed executable"
  | unsupportedFormat name => "unsupported executable format: " ++ Text.quoted name

/-- The program in a text. The name of the encoding is looked at last. -/
def ofText (s : String) : Except ReadError Program :=
  match (Json.read? s).bind ofJson? with
  | none => .error .malformed
  | some p => if p.format = formatName then .ok p else .error (.unsupportedFormat p.format)

end Program

end Minicomputer
