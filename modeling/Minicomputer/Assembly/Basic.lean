import Minicomputer.Assembly.Layout
import Minicomputer.Assembly.Scope
import Minicomputer.Token.Scan

/-!
# Assembly

From source text to a program. The result is a program exactly where there is nothing to complain
about; the labels are known in any case.
-/

set_option autoImplicit false

namespace Minicomputer.Assembly

structure Settings where
  sourceName : String := "<source>"
  commentLeader : String := Token.defaultLeader
  images : String → Except FileError (List Byte) := fun _ => .error .notFound

structure Outcome where
  program : Option Program
  diagnostics : List Diagnostic
  labels : Addresses

def debugInfo (settings : Settings) (source : String) (d : Draft) : DebugInfo :=
  let statements := d.statements.toList
  let scope := Scope.ofStatements statements
  { assemblyFile := settings.sourceName
    assemblySource := source
    assemblyLines := scope.assemblyLines
    sourceFile := scope.sourceFile
    sourceLines := scope.sourceLines
    globals := scope.globals
    locals := scope.locals
    debugStrings := debugTexts statements }

def program (settings : Settings) (source : String) (d : Draft) : Program :=
  { format := Program.formatName
    code := d.code
    data := d.dataBytes
    graphics := d.graphics
    sourceName := settings.sourceName
    debugInfo := some (debugInfo settings source d) }

def draft (settings : Settings) (source : String) : Draft :=
  .ofTokens settings.images (Token.scan source settings.commentLeader)

def assemble (settings : Settings) (source : String) : Outcome :=
  let d := draft settings source
  let diagnostics := d.diagnostics
  { program := if diagnostics.isEmpty then some (program settings source d) else none
    diagnostics
    labels := d.addresses }

/-- The paths of the pictures that a source asks for: those that it complains about where there are
no files at all. -/
def imagePaths (commentLeader source : String) : List String :=
  (draft { commentLeader } source).data.toList.filterMap fun e =>
    e.diagnostics.findSome? fun d =>
      match d.cause with
      | .unreadableImage path _ => some path
      | _ => none

theorem program_isSome_iff (settings : Settings) (source : String) :
    (assemble settings source).program.isSome = true ↔
      (assemble settings source).diagnostics = [] := by
  simp only [assemble]
  split <;> simp_all [List.isEmpty_iff]

end Minicomputer.Assembly
