import Minicomputer.Files
import Minicomputer.Machine.Run
import Minicomputer.Monitor.Generator
import Minicomputer.Monitor.Text
import Minicomputer.SystemCall

/-!
# The monitor

The operating system that comes with the machine. Arguments come in `a0` to `a3` and results go to
`rv`. It serves the console and some tools; calls for files and pictures answer that they failed.
-/

set_option autoImplicit false

namespace Minicomputer

structure Monitor where
  generator : Generator
  /-- Milliseconds since the last reset. -/
  clock : Nat := 0
  deriving DecidableEq, Inhabited

namespace Monitor

variable {σ : Type}

def ofSeed (seed : UInt64) : Monitor := { generator := .ofSeed seed }

def address (r : Register) : Action σ Int := return (← Action.register r).toNat

/-- The number in a register, where negative ones count as zero. -/
def count (r : Register) : Action σ Nat := return (← Action.register r).signed.toNat

def answer (w : Word) : Action σ Reply := do
  Action.setRegister .rv w
  return .proceed

def answerLine (serve : String → Action σ Reply) : Action σ Reply := do
  let m ← get
  match m.console.readLine? with
  | none => return .needsInput
  | some (line, console) =>
    set { m with console }
    serve line

def storeBytes (a : Int) : List Byte → Action σ Unit
  | [] => pure ()
  | b :: bs => do
    Action.storeByte a b
    storeBytes (a + 1) bs

/-- What a call does that leaves the monitor as it is. -/
def serve (clock : Nat) : SystemCall → Action σ Reply
  | .exit => return .exit
  | .rint => answerLine fun line => answer (lineInteger line.toList)
  | .wint => do
    Action.print (toString (← Action.register .a0).signed)
    return .proceed
  | .rstr => answerLine fun line => do
    let pointer ← address .a0
    let bytes := (bytesOfText line).take (← count .a1)
    storeBytes pointer bytes
    answer (UInt16.ofNat bytes.length)
  | .wchr => do
    Action.print (← Action.register .a0).low.char.toString
    return .proceed
  | .rchr => do
    let m ← get
    match m.console.readChar? with
    | none => return .needsInput
    | some (c, console) =>
      set { m with console }
      answer (UInt16.ofNat c.toNat)
  | .wstr => do
    Action.print (← Action.loadText (← address .a0))
    return .proceed
  | .printf => do
    let text ← format [.a1, .a2, .a3] (← Action.loadText (← address .a0)).toList
    Action.print (String.ofList text)
    return .proceed
  | .atoi => do answer (leadingInteger (← Action.loadText (← address .a0)).toList)
  | .sleep => return .proceed
  | .timer => answer (UInt16.ofNat (min clock 32767))
  | .joystick => do answer (← Action.register .io)
  | .memcpy => do
    let source ← address .a0
    let target ← address .a1
    Action.copy (fun i => source + i) (fun i => target + i) 0 (← count .a2)
    return .proceed
  | .error => do
    let message ← Action.loadText (← address .a0)
    Action.print message
    throw (.systemCall message)
  | _ => answer (Word.ofInt (-1))

/-- Draws a number between the values of `a0` and `a1`. -/
def random (g : Generator) : Action σ (Reply × Generator) := do
  let (w, g) := g.inRange (← Action.register .a0) (← Action.register .a1)
  return (← answer w, g)

def call (selector : Byte) (s : Monitor) : StateM (Machine σ) (Except Fault Reply × Monitor) := do
  match SystemCall.ofSelector? selector with
  | none =>
    return (.error (.systemCall ("unknown system call " ++ Text.marked 2 selector.toNat)), s)
  | some .rnd =>
    match ← (random s.generator).run with
    | .ok (reply, generator) => return (.ok reply, { s with generator })
    | .error e => return (.error e, s)
  | some call => return (← (serve s.clock call).run, s)

/-- The clock starts anew with every reset. -/
def reset (s : Monitor) : Monitor := { s with clock := 0 }

def system : System Monitor := ⟨call, reset⟩

end Monitor

/-- Time passes. -/
def Machine.elapse (milliseconds : Nat) (m : Machine Monitor) : Machine Monitor :=
  { m with system := m.system.map fun s => { s with clock := s.clock + milliseconds } }

end Minicomputer
