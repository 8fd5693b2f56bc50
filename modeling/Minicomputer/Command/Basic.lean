import Minicomputer.Assembly.Basic
import Minicomputer.Command.Session
import Minicomputer.Listing
import Minicomputer.Path
import Minicomputer.Program.Text

/-!
# Commands

What a command line does, as a function of its words, the files there are and the lines of input:
what is printed, what is written and the exit code.
-/

set_option autoImplicit false

namespace Minicomputer.Command

def versionText : String := "mtmc 0.1.0\n"

abbrev Reader := String → Except FileError (List Byte)

inductive LoadError where
  | unreadable (path : String) (error : FileError)
  | unstored (path : String) (error : FileError)
  | rejected (path : String) (error : Program.ReadError)
  | faulty (path : String) (diagnostics : List Assembly.Diagnostic)

def LoadError.message : LoadError → String
  | unreadable path error => "Failed to read " ++ path ++ ": " ++ error.message
  | unstored path error => "Failed to load " ++ path ++ ": I/O error: " ++ error.message
  | rejected path error => "Failed to load " ++ path ++ ": " ++ error.message
  | faulty path diagnostics => path ++ ": " ++ Assembly.Diagnostic.report diagnostics

def readText (read : Reader) (path : String) : Except FileError String :=
  match read path with
  | .error e => .error e
  | .ok bytes =>
    match textOfBytes? bytes with
    | some s => .ok s
    | none => .error .notText

/-- Pictures lie relative to the file that names them. -/
def picturePath (source path : String) : String := Path.join ((Path.parent? source).getD "") path

def assembleFile (read : Reader) (leader path : String) : Except LoadError Program :=
  match readText read path with
  | .error e => .error (.unreadable path e)
  | .ok source =>
    let settings : Assembly.Settings := {
      sourceName := (Path.fileName? path).getD path
      commentLeader := leader
      images := fun p => read (picturePath path p) }
    let outcome := Assembly.assemble settings source
    match outcome.program with
    | some p => .ok p
    | none => .error (.faulty path outcome.diagnostics)

/-- The program of a file, which is stored where the name ends in `.json` and assembly text
elsewhere. -/
def loadFile (read : Reader) (leader path : String) : Except LoadError Program :=
  if path.endsWith ".json" then
    match readText read path with
    | .error e => .error (.unstored path e)
    | .ok text => (Program.ofText text).mapError (.rejected path)
  else assembleFile read leader path

def problem (message : String) : String := "❌ " ++ message ++ "\n"

/-- What is said at the end of a session, and the exit code. -/
def Verdict.report : Verdict → String × UInt32
  | finished => ("", 0)
  | faulted pc fault =>
    ("\n" ++ problem ("CPU fault at PC=" ++ Text.hex 4 pc.toNat ++ ": " ++
      (fault.map Fault.message).getD ""), 1)
  | inputClosed => ("\n" ++ problem "Program is waiting for input but stdin is closed", 1)
  | outOfCycles limit =>
    ("\n⚠️  Reached max cycles limit (" ++ toString limit ++
      "). Use --max-cycles to increase.\n", 2)
  | idle => ("", 2)

def loadFault (e : Fault) : String := problem ("Failed to load program: " ++ e.message)

def outputPath (source : String) (output : Option String) : String :=
  output.getD (Path.withExtension source "json")

def assembling (source output : String) : String :=
  "📝 Assembling: " ++ source ++ " → " ++ output ++ "\n"

def assembled (p : Program) : String :=
  "✓ Assembled " ++ toString p.code.length ++ " code bytes, " ++ toString p.data.length ++
    " data bytes\n"

def saved (path : String) : String := "✓ Saved to " ++ path ++ "\n"

def unsaved (e : FileError) : String :=
  problem ("Failed to save executable: I/O error: " ++ e.message)

/-- The debugger draws on a terminal, and there is none. -/
def noTerminal : String := problem ("Debugger error: " ++ FileError.noDevice.message)

structure Result where
  exit : UInt32 := 0
  output : String := ""
  errors : String := ""
  /-- The name in the tree and the text of a file that was written. -/
  written : Option (List String × String) := none

/-- Runs a program on lines of input. The seed is for programs run without one. -/
def runProgram (seed : UInt64) (options : RunOptions) (input : List String) (p : Program) :
    Result :=
  match Session.start (.ofSeed (options.seed.getD seed)) options p with
  | .error e => { exit := 1, errors := loadFault e }
  | .ok session =>
    let (verdict, lines, session) := session.attend input
    let (last, exit) := verdict.report
    { exit
      output := session.machine.console.output
      errors := "".intercalate (lines.map (· ++ "\n")) ++ last }

def assembleTo (files : FileTree) (leader source : String) (output : Option String) : Result :=
  let path := outputPath source output
  let head := assembling source path
  match assembleFile files.read leader source with
  | .error e => { exit := 1, output := head, errors := problem e.message }
  | .ok p =>
    match files.place path with
    | .error e => { exit := 1, output := head ++ assembled p, errors := unsaved e }
    | .ok place =>
      { output := head ++ assembled p ++ saved path
        written := place.map fun name => (name, p.toText) }

def Stop.result : Stop → Result
  | help c => { output := c.page }
  | version => { output := versionText }
  | silence c => { exit := 2, errors := c.page }
  | fault c e => { exit := 2, errors := e.report c }

def perform (files : FileTree) (seed : UInt64) (words input : List String) : Result :=
  match parse words with
  | .error stop => stop.result
  | .ok request =>
    let withProgram (path : String) (f : Program → Result) : Result :=
      match loadFile files.read request.commentLeader path with
      | .ok p => f p
      | .error e => { exit := 1, errors := problem e.message }
    match request.task with
    | .run path options => withProgram path (runProgram seed options input)
    | .debug path => withProgram path fun _ => { exit := 1, errors := noTerminal }
    | .assemble source output => assembleTo files request.commentLeader source output
    | .list path => withProgram path fun p => { output := Listing.ofProgram p }

end Minicomputer.Command
