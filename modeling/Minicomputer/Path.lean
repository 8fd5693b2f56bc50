/-!
# Paths

Names of files with slashes between the parts. A single dot and repeated slashes between or behind
parts mean nothing.
-/

set_option autoImplicit false

namespace Minicomputer.Path

/-- The path read from its end, without slashes and dots behind the last part. -/
private def bareReversed : List Char → List Char
  | ['/'] => ['/']
  | '/' :: s => bareReversed s
  | ['.', '/'] => ['/']
  | '.' :: '/' :: s => bareReversed ('/' :: s)
  | s => s
termination_by s => s.length

/-- A path as what lies in front of its last part, and that part. -/
private def split (path : String) : List Char × List Char :=
  let s := bareReversed path.toList.reverse
  let last := s.takeWhile (· != '/')
  ((s.drop last.length).reverse, last.reverse)

private def isName (part : List Char) : Bool :=
  part != [] && part != ['.'] && part != ['.', '.']

/-- The last part, where that names something. -/
def fileName? (path : String) : Option String :=
  let (_, last) := split path
  if isName last then some (String.ofList last) else none

/-- The path of the directory that a path lies in; it is empty for a single part. -/
def parent? (path : String) : Option String :=
  let (front, last) := split path
  if last.isEmpty then none
  else some (String.ofList (bareReversed front.reverse).reverse)

/-- The path with another extension in the place of what follows the last dot of its name. A dot at
the start of a name does not count. -/
def withExtension (path extension : String) : String :=
  let (front, last) := split path
  if isName last then
    let after := last.reverse.takeWhile (· != '.')
    let before := last.take (last.length - after.length - 1)
    let stem := if after.length = last.length || before.isEmpty then last else before
    String.ofList (front ++ stem) ++ "." ++ extension
  else path

/-- A path below a directory. An absolute path stays as it is. -/
def join (directory path : String) : String :=
  if path.startsWith "/" || directory.isEmpty then path
  else if directory.endsWith "/" then directory ++ path
  else directory ++ "/" ++ path

end Minicomputer.Path
