import Minicomputer.Command.Form

/-!
# Usage errors

What can be wrong with a command line, and what is said about it: the fault, hints at what may have
been meant, and how the command is written.
-/

set_option autoImplicit false

namespace Minicomputer.Command

inductive Hint where
  | similarOption (name : String)
  | similarTasks (names : List String)
  | optionOfTask (task option : String)
  | asValue (word : String)
  | withoutDashes (task : String)
  deriving DecidableEq, Repr

def Hint.message : Hint → String
  | similarOption name => "a similar argument exists: '--" ++ name ++ "'"
  | similarTasks [name] => "a similar subcommand exists: '" ++ name ++ "'"
  | similarTasks names =>
    "some similar subcommands exist: " ++ ", ".intercalate (names.map fun n => "'" ++ n ++ "'")
  | optionOfTask task option => "'" ++ task ++ " --" ++ option ++ "' exists"
  | asValue word => "to pass '" ++ word ++ "' as a value, use '-- " ++ word ++ "'"
  | withoutDashes task =>
    "subcommand '" ++ task ++ "' exists; to use it, remove the '--' before it"

/-- A command line that asks for nothing there is. Options stand as they are written in full, and
`given` holds those that were understood before. -/
inductive UsageError where
  | noTask
  | unknownTask (name : String) (hint : Option Hint)
  | unknownWord (word : String) (hint : Option Hint) (given : List String)
  | missingValue (option : String)
  | unexpectedValue (value option : String) (given : List String)
  | invalidValue (value option : String) (cause : NumberError)
  | repeated (option : String)
  | missingOperand (operand : String) (given : List String)
  deriving DecidableEq, Repr

namespace UsageError

def message (c : CommandForm) : UsageError → String
  | noTask =>
    "'" ++ c.name ++ "' requires a subcommand but one was not provided\n  [subcommands: " ++
      ", ".intercalate (c.tasks.map Prod.fst) ++ "]"
  | unknownTask name _ => "unrecognized subcommand '" ++ name ++ "'"
  | unknownWord word _ _ => "unexpected argument '" ++ word ++ "' found"
  | missingValue option => "a value is required for '" ++ option ++ "' but none was supplied"
  | unexpectedValue value option _ =>
    "unexpected value '" ++ value ++ "' for '" ++ option ++ "' found; no more were expected"
  | invalidValue value option cause =>
    "invalid value '" ++ value ++ "' for '" ++ option ++ "': " ++ cause.message
  | repeated option => "the argument '" ++ option ++ "' cannot be used multiple times"
  | missingOperand operand _ =>
    "the following required arguments were not provided:\n  " ++ operand

def hint? : UsageError → Option Hint
  | unknownTask _ hint | unknownWord _ hint _ => hint
  | _ => none

/-- How the command is written, where that says more than the fault. -/
def usage? (c : CommandForm) : UsageError → Option String
  | missingValue _ | invalidValue .. => none
  | unknownWord _ _ given | unexpectedValue _ _ given => some (c.usage given)
  | missingOperand operand given => some (" ".intercalate (c.path :: given ++ [operand]))
  | _ => some (c.usage [])

def report (c : CommandForm) (e : UsageError) : String :=
  let hint := match e.hint? with
    | some hint => "\n\n  tip: " ++ hint.message
    | none => ""
  let usage := match e.usage? c with
    | some text => "\n\nUsage: " ++ text
    | none => ""
  "error: " ++ e.message c ++ hint ++ usage ++ "\n\nFor more information, try '--help'.\n"

end UsageError

end Minicomputer.Command
