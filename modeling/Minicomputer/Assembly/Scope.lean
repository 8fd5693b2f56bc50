import Minicomputer.Assembly.Statement

/-!
# Scopes

What the notes in a program say about the code between them.
-/

set_option autoImplicit false

namespace Minicomputer.Assembly

/-- What holds at a place in a program, and what was said of each byte of code before it. -/
structure Scope where
  sourceFile : String := ""
  sourceLine : UInt32 := 0
  globals : List GlobalVariable := []
  visible : List LocalVariable := []
  assemblyLines : Array UInt32 := #[]
  sourceLines : Array UInt32 := #[]
  locals : Array (List LocalVariable) := #[]

namespace Scope

def note (s : Scope) : Note → Scope
  | .file name => { s with sourceFile := name }
  | .line n => { s with sourceLine := n }
  | .global g => { s with globals := s.globals ++ [g] }
  | .enter l => { s with visible := s.visible ++ [l] }
  | .leave name => { s with visible := s.visible.filter (·.name != name) }

/-- Says of some bytes of code from a line what holds here. -/
def cover (s : Scope) (line size : Nat) : Scope :=
  { s with
    assemblyLines := s.assemblyLines ++ List.replicate size (UInt32.ofNat line)
    sourceLines := s.sourceLines ++ List.replicate size s.sourceLine
    locals := s.locals ++ List.replicate size s.visible }

def pass (s : Scope) (statement : Statement) : Scope :=
  match statement.operation with
  | .note n => s.note n
  | _ => s.cover statement.anchor.line statement.size

def ofStatements (statements : List Statement) : Scope := statements.foldl pass {}

end Scope

def debugTexts (statements : List Statement) : List String :=
  statements.filterMap fun s =>
    match s.operation with
    | .debug _ text => some text
    | _ => none

end Minicomputer.Assembly
