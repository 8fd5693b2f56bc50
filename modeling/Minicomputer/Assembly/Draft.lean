import Minicomputer.Assembly.Datum
import Minicomputer.Assembly.Label
import Minicomputer.Assembly.Operand

/-!
# Drafts

The first pass reads a source line by line into statements and data. Labels are bound to the element
that follows them; a line of labels alone holds them for the next element, and so does a note, which
takes no space.
-/

set_option autoImplicit false

namespace Minicomputer.Assembly

/-- Tokens in groups that start on one line. -/
def lines (tokens : List Token) : List (List Token) :=
  (tokens.filter (·.kind != .eof)).splitBy fun t u => t.line == u.line

/-- The name in lower case behind a mark that the line starts with. -/
def directive? (mark : TokenKind) : List Token → Option String
  | t :: u :: _ =>
    if t.kind = mark ∧ u.kind = .identifier ∧ t.adjacent u then some u.text.toLower else none
  | _ => none

inductive Segment where
  | text | data
  deriving DecidableEq, Repr

def segment? (line : List Token) : Option Segment :=
  match directive? .dot line with
  | some "data" => some .data
  | some "text" => some .text
  | _ => none

structure Draft where
  segment : Segment := .text
  statements : Array Statement := #[]
  data : Array Datum := #[]
  labels : LabelTable := .builtIn
  /-- Labels that wait for an element. -/
  held : List Token := []
  graphics : List (List Byte) := []
  debugStrings : Nat := 0
  /-- Complaints about lines that make no element. -/
  strays : List Diagnostic := []

namespace Draft

/-- Binds labels to a target. The first binding of a name stands, others are complained about. -/
def bind (table : LabelTable) (target : LabelTarget) : List Token → LabelTable × List Diagnostic
  | [] => (table, [])
  | t :: ts =>
    match table.define? t.text target with
    | some table => bind table target ts
    | none =>
      let (table, ds) := bind table target ts
      (table, ⟨t, .duplicateLabel⟩ :: ds)

def operation (debugStrings : Nat) (first : Token) (operands : List Token) :
    Operation × List Diagnostic :=
  if first.kind ≠ .identifier then (.invalid, [⟨first, .unexpectedToken⟩])
  else
    match Mnemonic.ofWord? first.text with
    | none => (.invalid, [⟨first, .unknownInstruction⟩])
    | some (m, implied) =>
      let implied := (implied.map (first.inPlace .identifier)).toList
      Reading.all first (implied ++ operands) (Reading.operation debugStrings m)

def addStatement (d : Draft) (labels : List Token) (first : Token) (operands : List Token) :
    Draft :=
  let (table, duplicates) := bind d.labels (.instruction d.statements.size) labels
  let (operation, complaints) := operation d.debugStrings first operands
  { d with
    labels := table
    statements := d.statements.push ⟨first, operation, duplicates ++ complaints⟩
    debugStrings := match operation with
      | .debug .. => d.debugStrings + 1
      | _ => d.debugStrings }

def addNote (d : Draft) (name : Token) (operands : List Token) : Draft :=
  let word := name.text.toLower
  let (operation, complaints) :=
    match Reading.note? word with
    | some r =>
      let (note, complaints) := Reading.all name operands r
      (Operation.note note, complaints)
    | none => (.invalid, [⟨name, .unknownNote word⟩])
  { d with statements := d.statements.push ⟨name, operation, complaints⟩ }

/-- A picture from a file, which gets the next number. -/
def readImage (images : String → Except FileError (List Byte)) (graphics : List (List Byte))
    (first : Token) (path : String) : Word × List (List Byte) × List Diagnostic :=
  match images path with
  | .ok bytes => (UInt16.ofNat graphics.length, graphics ++ [bytes], [])
  | .error e => (0, graphics, [⟨first, .unreadableImage path e⟩])

/-- The value of a line of the data segment, from its first token on. -/
def value (images : String → Except FileError (List Byte)) (graphics : List (List Byte))
    (first : Token) (others : List Token) : DataValue × List (List Byte) × List Diagnostic :=
  let count (make : Nat → DataValue) : DataValue × List (List Byte) × List Diagnostic :=
    let (n, complaints) := Reading.all first others.tail (Reading.integer 0 4096)
    (make n.toNat, graphics, complaints)
  match first.kind with
  | .string =>
    let (_, complaints) := Reading.all first others (pure ())
    let ascii := first.text.toList.all fun c => c.toNat < 128
    (.string first.text, graphics, (if ascii then [] else [⟨first, .nonAsciiString⟩]) ++ complaints)
  | .integer | .hex | .binary | .char =>
    let (w, complaints) := Reading.all first (first :: others) Reading.word
    (.word w, graphics, complaints)
  | _ =>
    match directive? .dot (first :: others) with
    | some "int" => count .words
    | some "byte" => count .bytes
    | some "image" =>
      let (path, complaints) := Reading.all first others.tail Reading.string
      let (index, graphics, unreadable) := readImage images graphics first path
      (.image index, graphics, unreadable ++ complaints)
    | some other => (.empty, graphics, [⟨first, .unknownDirective other⟩])
    | none =>
      let (_, complaints) := Reading.all first others (pure ())
      (.empty, graphics, ⟨first, .unexpectedToken⟩ :: complaints)

def addDatum (images : String → Except FileError (List Byte)) (d : Draft) (labels : List Token)
    (first : Token) (others : List Token) : Draft :=
  let (table, duplicates) := bind d.labels (.data d.data.size) labels
  let (value, graphics, complaints) := value images d.graphics first others
  { d with
    labels := table
    data := d.data.push ⟨first, value, duplicates ++ complaints⟩
    graphics }

def addLine (images : String → Except FileError (List Byte)) (d : Draft) (line : List Token) :
    Draft :=
  match segment? line with
  | some segment =>
    { d with
      segment
      strays := d.strays ++ ((line.drop 2).head?.map fun t => ⟨t, .unexpectedToken⟩).toList }
  | none =>
    let held := d.held ++ line.takeWhile (·.kind = .label)
    match line.dropWhile (·.kind = .label) with
    | [] => { d with held }
    | first :: others =>
      match directive? .at (first :: others), others with
      | some _, name :: operands => { d with held }.addNote name operands
      | _, _ =>
        let d := { d with held := [] }
        match d.segment with
        | .text => d.addStatement held first others
        | .data => d.addDatum images held first others

/-- Binds the labels that are left to an empty element behind all others. -/
def close (d : Draft) : Draft :=
  match d.held.getLast? with
  | none => d
  | some last =>
    let (table, duplicates) := bind d.labels (.data d.data.size) d.held
    { d with labels := table, held := [], data := d.data.push ⟨last, .empty, duplicates⟩ }

def ofTokens (images : String → Except FileError (List Byte)) (tokens : List Token) : Draft :=
  ((lines tokens).foldl (addLine images) {}).close

end Draft

end Minicomputer.Assembly
