import Minicomputer.Command.Basic

/-!
# The program

Reads the files and lines that a command asks for and prints what it says.
-/

set_option autoImplicit false

namespace Minicomputer.Main

open Command

def fileError : IO.Error → FileError
  | .noFileOrDirectory .. => .notFound
  | .inappropriateType _ 21 _ => .isDirectory
  | .inappropriateType _ 20 _ => .notDirectory
  | e => .other (toString e)

def readFile (path : String) : IO (Except FileError (List Byte)) := do
  try
    return .ok (← IO.FS.readBinFile path).toList
  catch e => return .error (fileError e)

/-- The contents of a file and of the pictures that it names. -/
def gather (leader path : String) : IO Reader := do
  let main ← readFile path
  let mut found := [(path, main)]
  if let .ok bytes := main then
    if let some source := textOfBytes? bytes then
      for picture in Assembly.imagePaths leader source do
        let place := picturePath path picture
        found := (place, ← readFile place) :: found
  let files := found
  return fun p => (files.lookup p).getD (.error .notFound)

def complain (message : String) : IO UInt32 := do
  IO.eprint message
  return 1

partial def converse (s : Session) : IO UInt32 := do
  let (next, lines, s) := s.round
  for line in lines do IO.eprintln line
  let (text, machine) := s.machine.takeOutput
  let stdout ← IO.getStdout
  stdout.putStr text
  stdout.flush
  let s := { s with machine }
  let finish (v : Verdict) : IO UInt32 := do
    let (last, exit) := v.report
    IO.eprint last
    return exit
  match next with
  | .ended v => finish v
  | .again => converse s
  | .wantsLine =>
    let line ← (← IO.getStdin).getLine
    if line.isEmpty then finish .inputClosed else converse (s.answer line)

def withProgram (leader path : String) (f : Program → IO UInt32) : IO UInt32 := do
  match loadFile (← gather leader path) leader path with
  | .ok p => f p
  | .error e => complain (problem e.message)

def assembleTo (leader source : String) (output : Option String) : IO UInt32 := do
  let path := outputPath source output
  IO.print (assembling source path)
  match assembleFile (← gather leader source) leader source with
  | .error e => complain (problem e.message)
  | .ok p =>
    IO.print (assembled p)
    try
      IO.FS.writeFile path p.toText
      IO.print (saved path)
      return 0
    catch e => complain (unsaved (fileError e))

def carryOut (request : Request) : IO UInt32 := do
  let leader := request.commentLeader
  match request.task with
  | .run path options => withProgram leader path fun p => do
    let seed := options.seed.getD (UInt64.ofNat (← IO.monoNanosNow))
    match Session.start (.ofSeed seed) options p with
    | .error e => complain (loadFault e)
    | .ok session => converse session
  | .debug path => withProgram leader path fun _ => complain noTerminal
  | .assemble source output => assembleTo leader source output
  | .list path => withProgram leader path fun p => do
    IO.print (Listing.ofProgram p)
    return 0

end Minicomputer.Main

open Minicomputer in
def main (words : List String) : IO UInt32 := do
  match Command.parse words with
  | .error stop =>
    IO.print stop.result.output
    IO.eprint stop.result.errors
    return stop.result.exit
  | .ok request => Main.carryOut request
