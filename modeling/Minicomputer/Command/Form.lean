import Minicomputer.Command.Number
import Minicomputer.Text.Hexadecimal
import Minicomputer.Token.Scan

/-!
# Forms of commands

The commands there are with their options and the files they want, and the pages that tell of them.
-/

set_option autoImplicit false

namespace Minicomputer.Command

inductive ValueForm where
  | text
  | natural (largest : Nat)
  | integerUpTo (largest : Nat)
  deriving DecidableEq, Repr

inductive OptionKind where
  /-- With a value, called by a placeholder, and a text for the value where none is given. -/
  | value (form : ValueForm) (placeholder : String) (default : Option String)
  | switch
  /-- A switch that may be given more than once. -/
  | counter
  | help
  | version
  deriving DecidableEq, Repr

structure OptionForm where
  name : String
  letter : Option Char
  kind : OptionKind
  help : String
  deriving DecidableEq, Repr

def OptionForm.text (o : OptionForm) : String :=
  match o.kind with
  | .value _ placeholder _ => "--" ++ o.name ++ " <" ++ placeholder ++ ">"
  | .counter => "--" ++ o.name ++ "..."
  | .switch | .help | .version => "--" ++ o.name

def OptionForm.hasValue (o : OptionForm) : Bool :=
  match o.kind with
  | .value .. => true
  | _ => false

/-- Options that only tell of the program are not counted among those of a command. -/
def OptionForm.isCounted (o : OptionForm) : Bool := o.kind != .help && o.kind != .version

structure CommandForm where
  name : String
  path : String
  about : String
  options : List OptionForm
  /-- The word that is no option, and what it is for. -/
  operand : Option (String × String) := none
  /-- The commands below this one, with what they do. -/
  tasks : List (String × String) := []
  deriving DecidableEq, Repr

namespace CommandForm

def named? (c : CommandForm) (name : String) : Option OptionForm :=
  c.options.find? (·.name == name)

def lettered? (c : CommandForm) (letter : Char) : Option OptionForm :=
  c.options.find? (·.letter == some letter)

def isTask (c : CommandForm) (word : String) : Bool := c.tasks.any (·.1 == word)

private def rest (c : CommandForm) : List String :=
  (c.operand.map Prod.fst).toList ++ if c.tasks.isEmpty then [] else ["<COMMAND>"]

/-- How a command is written, with some of its options; without any it only says that there are
options. -/
def usage (c : CommandForm) (options : List String) : String :=
  let shown :=
    if !options.isEmpty then options
    else if c.options.any OptionForm.isCounted then ["[OPTIONS]"] else []
  " ".intercalate (c.path :: shown ++ c.rest)

private def rows (title : String) (entries : List (String × String)) : String :=
  let width := entries.foldl (fun n (left, _) => Nat.max n left.length) 0
  if entries.isEmpty then ""
  else "\n" ++ title ++ ":\n" ++ "".intercalate (entries.map fun (left, right) =>
    "  " ++ Text.padRight width left ++ "  " ++ right ++ "\n")

private def optionRow (o : OptionForm) : String × String :=
  let letter := match o.letter with
    | some c => "-" ++ c.toString ++ ", "
    | none => "    "
  let default := match o.kind with
    | .value _ _ (some value) => " [default: " ++ value ++ "]"
    | _ => ""
  (letter ++ o.text, o.help ++ default)

def page (c : CommandForm) : String :=
  c.about ++ "\n\nUsage: " ++ c.usage [] ++ "\n" ++ rows "Commands" c.tasks ++
    rows "Arguments" c.operand.toList ++ rows "Options" (c.options.map optionRow)

end CommandForm

def verboseOption : OptionForm :=
  ⟨"verbose", some 'v', .counter,
    "Increase log output (-v debug, -vv trace). RUST_LOG overrides"⟩

def commentOption : OptionForm :=
  ⟨"comment", none, .value .text "COMMENT" (some Token.defaultLeader),
    "Line comment leader for assembly sources"⟩

def helpOption : OptionForm := ⟨"help", some 'h', .help, "Print help"⟩

def versionOption : OptionForm := ⟨"version", some 'V', .version, "Print version"⟩

def runForm : CommandForm where
  name := "run"
  path := "mtmc run"
  about := "Run a program until it exits"
  options :=
    [⟨"max-cycles", some 'm', .value (.natural (UInt64.size - 1)) "MAX_CYCLES" (some "1000000"),
        "Maximum number of instructions to execute"⟩,
      verboseOption, commentOption,
      ⟨"speed", some 's', .value (.integerUpTo (UInt32.size - 1)) "SPEED" (some "0"),
        "Instructions per second (0 = unthrottled)"⟩,
      ⟨"input", some 'i', .value .text "INPUT" none,
        "Console input given to the program before it starts"⟩,
      ⟨"seed", none, .value (.natural (UInt64.size - 1)) "SEED" none,
        "Seed for the `rnd` system call"⟩,
      ⟨"trace", some 't', .switch, "Print each executed instruction"⟩,
      helpOption]
  operand := some ("<PROGRAM>", "Executable (.json) or assembly source to run")

def debugForm : CommandForm where
  name := "debug"
  path := "mtmc debug"
  about := "Interactive debugger"
  options := [verboseOption, commentOption, helpOption]
  operand := some ("<PROGRAM>", "Executable (.json) or assembly source to debug")

def assembleForm : CommandForm where
  name := "asm"
  path := "mtmc asm"
  about := "Assemble source to an executable"
  options :=
    [⟨"output", some 'o', .value .text "OUTPUT" none,
        "Output executable (defaults to the source name with .json)"⟩,
      verboseOption, commentOption, helpOption]
  operand := some ("<SOURCE>", "Path to the source file")

def listForm : CommandForm where
  name := "disasm"
  path := "mtmc disasm"
  about := "Disassemble an executable to readable text"
  options := [verboseOption, commentOption, helpOption]
  operand := some ("<PROGRAM>", "Executable (.json) or assembly source")

def helpForm : CommandForm where
  name := "help"
  path := "mtmc help"
  about := "Print this message or the help of the given subcommand(s)"
  options := []
  operand := some ("[COMMAND]...", "Print help for the subcommand(s)")

def taskForms : List CommandForm := [runForm, debugForm, assembleForm, listForm, helpForm]

def mainForm : CommandForm where
  name := "mtmc"
  path := "mtmc"
  about := "Assembler and emulator for the MTMC-16 teaching computer"
  options := [verboseOption, commentOption, helpOption, versionOption]
  tasks := taskForms.map fun c => (c.name, c.about)

end Minicomputer.Command
