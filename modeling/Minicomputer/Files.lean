import Minicomputer.Word

/-!
# Files

A tree of files, given by the paths and contents of the files in it. A directory is there where a
file is below it.
-/

set_option autoImplicit false

namespace Minicomputer

inductive FileError where
  | notFound
  | isDirectory
  | notDirectory
  | nameTooLong
  | noDevice
  | nulInName
  | notText
  | other (description : String)
  deriving DecidableEq, Repr

def FileError.message : FileError → String
  | notFound => "No such file or directory (os error 2)"
  | isDirectory => "Is a directory (os error 21)"
  | notDirectory => "Not a directory (os error 20)"
  | nameTooLong => "File name too long (os error 36)"
  | noDevice => "No such device or address (os error 6)"
  | nulInName => "file name contained an unexpected NUL byte"
  | notText => "stream did not contain valid UTF-8"
  | other description => description

def textOfBytes? (bytes : List Byte) : Option String := String.fromUTF8? ⟨bytes.toArray⟩

def bytesOfText (s : String) : List Byte := s.toList.flatMap String.utf8EncodeChar

/-- The path of each file with its contents. A path is a list of names. -/
structure FileTree where
  files : List (List String × List Byte) := []
  deriving Inhabited

namespace FileTree

/-- What a path leads to. A place outside the tree is a directory of which nothing is known. -/
inductive Place where
  | directory (path : List String)
  | outside
  | file (path : List String) (contents : List Byte)

def ofPaths (files : List (String × List Byte)) : FileTree :=
  ⟨files.map fun (path, contents) => (path.splitOn "/", contents)⟩

def child (t : FileTree) (path : List String) (name : String) : Except FileError Place :=
  if 255 < name.utf8ByteSize then .error .nameTooLong
  else
    let path := path ++ [name]
    match t.files.lookup path with
    | some contents => .ok (.file path contents)
    | none =>
      if t.files.any fun (p, _) => path.isPrefixOf p then .ok (.directory path)
      else .error .notFound

/-- One step of a path. An empty name and a dot stay where they are. -/
def enter (t : FileTree) (place : Place) (name : String) : Except FileError Place :=
  match place with
  | .file _ _ => .error .notDirectory
  | .outside =>
    if name = "" ∨ name = "." ∨ name = ".." then .ok .outside else .error .notFound
  | .directory path =>
    if name = "" ∨ name = "." then .ok (.directory path)
    else if name = ".." then .ok (if path.isEmpty then .outside else .directory path.dropLast)
    else t.child path name

/-- The bytes that a path must stay below. -/
def pathLimit : Nat := 4096

def names (path : String) : Except FileError (List String) :=
  if path.toList.contains '\x00' then .error .nulInName
  else if pathLimit ≤ path.utf8ByteSize then .error .nameTooLong
  else if path.isEmpty then .error .notFound
  else .ok (path.splitOn "/")

/-- Where a path starts. An absolute path leads outside. -/
def start (path : String) : Place :=
  if path.startsWith "/" then .outside else .directory []

/-- Follows a path from the top of the tree. -/
def resolve (t : FileTree) (path : String) : Except FileError Place := do
  (← names path).foldlM t.enter (start path)

def read (t : FileTree) (path : String) : Except FileError (List Byte) := do
  match ← t.resolve path with
  | .file _ contents => return contents
  | _ => throw .isDirectory

/-- The place of a file to be written, where that is in the tree. The directory that it goes to must
be there, and a path with a slash or dots at its end leads to no file. -/
def place (t : FileTree) (path : String) : Except FileError (Option (List String)) := do
  match (← names path).reverse.dropWhile String.isEmpty with
  | [] => throw .isDirectory
  | name :: front =>
    let directory ← front.reverse.foldlM t.enter (start path)
    match directory with
    | .file .. => throw .notDirectory
    | _ =>
      if name = "." ∨ name = ".." ∨ path.endsWith "/" then throw .isDirectory
      match t.enter directory name, directory with
      | .ok (.file p _), _ => return some p
      | .ok _, _ => throw .isDirectory
      | .error .notFound, .directory p => return some (p ++ [name])
      | .error .notFound, _ => return none
      | .error e, _ => throw e

def readText (t : FileTree) (path : String) : Except FileError String := do
  match textOfBytes? (← t.read path) with
  | some s => return s
  | none => throw .notText

end FileTree

end Minicomputer
