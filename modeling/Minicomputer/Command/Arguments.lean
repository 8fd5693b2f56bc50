import Minicomputer.Command.Usage
import Minicomputer.Text.Similarity

/-!
# Arguments

What the words of a command line ask for. An option is written `--name value`, `--name=value`,
`-nvalue`, `-n=value` or `-n value`; switches of one letter may be joined. A value in a word of its
own does not start with a dash, unless it is one; behind `--` no word is an option. Words count from
left to right: an option that asks for help or for the version is answered at once, whatever
follows.
-/

set_option autoImplicit false

namespace Minicomputer.Command

structure RunOptions where
  maxCycles : Nat := 1000000
  speed : Nat := 0
  input : Option String := none
  seed : Option UInt64 := none
  trace : Bool := false
  deriving DecidableEq

inductive Task where
  | run (program : String) (options : RunOptions)
  | debug (program : String)
  | assemble (source : String) (output : Option String)
  | list (program : String)
  deriving DecidableEq

structure Request where
  commentLeader : String
  task : Task
  deriving DecidableEq

inductive Stop where
  | help (command : CommandForm)
  | version
  /-- A command line without a word of its own. -/
  | silence (command : CommandForm)
  | fault (command : CommandForm) (error : UsageError)
  deriving DecidableEq, Repr

abbrev Parsed := Except Stop

inductive Value where
  | text (s : String)
  | number (n : Nat)
  | present
  deriving DecidableEq, Repr

def ValueForm.read (f : ValueForm) (s : String) : Except NumberError Value :=
  match f with
  | .text => .ok (.text s)
  | .natural largest => (Command.natural largest s).map .number
  | .integerUpTo largest => (Command.integerUpTo largest s).map .number

/-- What was understood of the words so far. -/
structure Reading where
  /-- Options with their values, the last one at the end. -/
  given : List (OptionForm × Value) := []
  /-- An option that waits for a word with its value, or has that word and was not looked at. -/
  held : Option (OptionForm × Option String) := none
  operands : List String := []
  deriving DecidableEq, Repr

namespace Reading

def value? (r : Reading) (name : String) : Option Value :=
  (r.given.find? (·.1.name == name)).map Prod.snd

def number? (r : Reading) (name : String) : Option Nat :=
  match r.value? name with
  | some (.number n) => some n
  | _ => none

def text? (r : Reading) (name : String) : Option String :=
  match r.value? name with
  | some (.text s) => some s
  | _ => none

def isWaiting (r : Reading) : Bool :=
  match r.held with
  | some (_, none) => true
  | _ => false

def written (r : Reading) : List String := r.given.map (·.1.text)

/-- Takes an option with its value, if it has one. -/
def accept (c : CommandForm) (r : Reading) (o : OptionForm) (value : Option String) :
    Parsed Reading :=
  let others := r.given.filter (·.1.name != o.name)
  let isNew := others.length = r.given.length
  match o.kind, value with
  | .help, _ => throw (.help c)
  | .version, _ => throw .version
  | .counter, _ => return { r with given := others ++ [(o, .present)] }
  | .switch, _ =>
    if isNew then return { r with given := others ++ [(o, .present)] }
    else throw (.fault c (.repeated o.text))
  | .value .., none => throw (.fault c (.missingValue o.text))
  | .value form _ _, some s =>
    if !isNew then throw (.fault c (.repeated o.text))
    else match form.read s with
      | .ok v => return { r with given := others ++ [(o, v)] }
      | .error e => throw (.fault c (.invalidValue s o.text e))

def settle (c : CommandForm) (r : Reading) : Parsed Reading :=
  match r.held with
  | none => return r
  | some (o, value) => accept c { r with held := none } o value

/-- What is understood when a word is not, be the option that is held as it may. -/
def settled (c : CommandForm) (r : Reading) : Reading :=
  match r.settle c with
  | .ok r => r
  | .error _ => r

def meet (c : CommandForm) (r : Reading) (o : OptionForm) (value : Option String) :
    Parsed Reading := do
  accept c (← r.settle c) o value

def await (c : CommandForm) (r : Reading) (o : OptionForm) : Parsed Reading := do
  return { (← r.settle c) with held := some (o, none) }

/-- A word that is no option, with those in front of it and whether it stands behind two dashes. -/
def plain (c : CommandForm) (behindDashes : Bool) (r : Reading) (word : String) :
    Parsed Reading := do
  if c.operand.isSome && r.operands.isEmpty then
    return { (← r.settle c) with operands := [word] }
  else if c.tasks.isEmpty then throw (.fault c (.unknownWord word none []))
  else if behindDashes && c.isTask word then
    throw (.fault c (.unknownWord word (some (.withoutDashes word)) []))
  else
    let names := Text.Similarity.similar word (c.tasks.map Prod.fst)
    let hint := if names.isEmpty then none else some (Hint.similarTasks names)
    throw (.fault c (.unknownTask word hint))

def letters (c : CommandForm) : List Char → Reading → Parsed Reading
  | [], r => return r
  | letter :: rest, r =>
    match c.lettered? letter with
    | none =>
      let word := "-" ++ letter.toString
      throw (.fault c (.unknownWord word (c.operand.map fun _ => .asValue word) []))
    | some o =>
      if o.hasValue then
        match rest with
        | [] => r.await c o
        | '=' :: value => r.meet c o (some (String.ofList value))
        | value => r.meet c o (some (String.ofList value))
      else do letters c rest (← r.meet c o none)

/-- The option of another name that may have been meant. -/
def similarOption? (c : CommandForm) (name : String) : Option OptionForm := do
  c.named? (← (Text.Similarity.similar name (c.options.map OptionForm.name)).getLast?)

/-- The first command that is called by later words and has an option of a similar name. -/
def optionOfTask? (c : CommandForm) (name : String) (words : List String) : Option Hint :=
  words.findSome? fun word => do
    let task ← taskForms.find? fun t => t.name == word && c.isTask word
    return .optionOfTask task.name (← similarOption? task name).name

/-- An option behind two dashes, with the words that follow it. -/
def long (c : CommandForm) (r : Reading) (body : String) (words : List String) :
    Parsed Reading :=
  let chars := body.toList
  let name := String.ofList (chars.takeWhile (· != '='))
  match c.named? name, chars.dropWhile (· != '=') with
  | some o, [] => if o.hasValue then r.await c o else r.meet c o none
  | some o, _ :: value =>
    let value := String.ofList value
    if o.hasValue then r.meet c o (some value)
    else throw (.fault c (.unexpectedValue value o.text (r.settled c).written))
  | none, _ =>
    let word := "--" ++ name
    let given := (r.settled c).written
    match similarOption? c name with
    | some o =>
      throw (.fault c (.unknownWord word (some (.similarOption o.name))
        (given.filter (· != o.text) ++ [o.text])))
    | none =>
      let hint := (optionOfTask? c name words).or (c.operand.map fun _ => .asValue word)
      throw (.fault c (.unknownWord word hint given))

/-- Reads words up to their end or up to one that calls a command. Gives that one with the words
behind it. -/
def words (c : CommandForm) :
    List String → Reading → Parsed (Reading × Option (String × List String))
  | [], r => return (r, none)
  | w :: ws, r =>
    if !r.isWaiting && c.isTask w then return (r, some (w, ws))
    else if w = "--" then do return (← ws.foldlM (plain c true) r, none)
    else if w.startsWith "--" then do words c ws (← r.long c (String.ofList (w.toList.drop 2)) ws)
    else if w.startsWith "-" && w != "-" then do words c ws (← letters c (w.toList.drop 1) r)
    else
      match r.held with
      | some (o, none) => words c ws { r with held := some (o, some w) }
      | _ => do words c ws (← r.plain c false w)

end Reading

/-- All words behind the name of a command, with the one that is no option. -/
def readTask (c : CommandForm) (ws : List String) : Parsed (String × Reading) := do
  let (r, _) ← Reading.words c ws {}
  let r ← r.settle c
  match r.operands, c.operand with
  | word :: _, _ => return (word, r)
  | [], some (operand, _) => throw (.fault c (.missingOperand operand r.written))
  | [], none => throw (.fault c .noTask)

def describe (c : CommandForm) : List String → Parsed Unit
  | [] => throw (.help c)
  | w :: ws =>
    match taskForms.find? fun t => t.name == w && c.isTask w with
    | some t => describe t ws
    | none => throw (.fault c (.unknownTask w none))

def task (name : String) (ws : List String) : Parsed (Task × Reading) := do
  match name with
  | "run" =>
    let (file, r) ← readTask runForm ws
    return (.run file {
      maxCycles := (r.number? "max-cycles").getD 1000000
      speed := (r.number? "speed").getD 0
      input := r.text? "input"
      seed := (r.number? "seed").map UInt64.ofNat
      trace := (r.value? "trace").isSome }, r)
  | "debug" =>
    let (file, r) ← readTask debugForm ws
    return (.debug file, r)
  | "asm" =>
    let (file, r) ← readTask assembleForm ws
    return (.assemble file (r.text? "output"), r)
  | "disasm" =>
    let (file, r) ← readTask listForm ws
    return (.list file, r)
  | _ =>
    describe mainForm ws
    throw (.help mainForm)

def parse (ws : List String) : Parsed Request := do
  match ← Reading.words mainForm ws {} with
  | (front, none) =>
    let front ← front.settle mainForm
    if front.given.isEmpty then throw (.silence mainForm) else throw (.fault mainForm .noTask)
  | (front, some (name, ws)) =>
    let (task, r) ← task name ws
    let front ← front.settle mainForm
    let leader := (r.text? "comment").or (front.text? "comment")
    return ⟨leader.getD Token.defaultLeader, task⟩

end Minicomputer.Command
