import Minicomputer.Listing
import Minicomputer.Monitor.Basic

/-!
# The debugger

A machine with a program that is run step by step or in portions, and what the user sees of it: a
status line, a line of input being typed, a place in memory and the code around the program counter.
-/

set_option autoImplicit false

namespace Minicomputer

inductive Notice where
  | ready
  | loadFailed (fault : Fault)
  | cannotStep (status : Status)
  /-- An instruction was executed; the text is the one found at its address afterwards. -/
  | stepped (pc : Word) (text : String)
  | failed (fault : Fault)
  | waiting
  | running
  | paused
  | finished (cycles : Nat)
  | stopped (fault : Option Fault)
  | atBreakpoint (pc : Word)
  | inputAccepted
  | breakpointRemoved (pc : Word)
  | breakpointSet (pc : Word)
  | reset
  deriving DecidableEq

def Notice.text : Notice → String
  | ready => "Ready. Press 's' to step, 'r' to run, 'q' to quit."
  | loadFailed fault => "Load failed: " ++ fault.message
  | cannotStep status => "Cannot step: " ++ status.name
  | stepped pc text => "PC=" ++ Text.hex 4 pc.toNat ++ ": " ++ text
  | failed fault => "Error: " ++ fault.message
  | waiting => "Waiting for input. Type a line and press Enter."
  | running => "Running..."
  | paused => "Paused."
  | finished cycles => "Finished after " ++ toString cycles ++ " cycles"
  | stopped (some fault) => "Fault: " ++ fault.message
  | stopped none => "Fault"
  | atBreakpoint pc => "Breakpoint at PC=" ++ Text.hex 4 pc.toNat
  | inputAccepted => "Input accepted. Ready."
  | breakpointRemoved pc => "Removed breakpoint at PC=" ++ Text.hex 4 pc.toNat
  | breakpointSet pc => "Set breakpoint at PC=" ++ Text.hex 4 pc.toNat
  | reset => "Reset. Ready."

structure Debugger where
  machine : Machine Monitor
  program : Program
  /-- Whether the machine is run in portions, one a tick. -/
  running : Bool
  quitting : Bool
  notice : Notice
  scroll : Nat
  input : String

namespace Debugger

/-- Cycles a tick. -/
def portion : Nat := 1000

def rowLength : Nat := 8

def lastRow : Nat := memorySize / rowLength - 1

def new (monitor : Monitor) (program : Program) : Debugger :=
  let (loaded, machine) := (Machine.new monitor).load Monitor.system program
  { machine, program
    running := false
    quitting := false
    notice := match loaded with
      | .ok () => .ready
      | .error e => .loadFailed e
    scroll := 0
    input := "" }

/-- Tells what has stopped the machine, if anything has. -/
def report (d : Debugger) : Debugger :=
  match d.machine.status with
  | .executing | .ready => d
  | .finished => { d with running := false, notice := .finished d.machine.cycles }
  | .permanentError => { d with running := false, notice := .stopped d.machine.fault }
  | .breakpoint => { d with running := false, notice := .atBreakpoint d.machine.pc }
  | .waiting => { d with notice := .waiting }

def step (d : Debugger) : Debugger :=
  if d.machine.status.isResumable then
    match d.machine.step Monitor.system with
    | (.ok _, machine) =>
      let (text, _) := Listing.textAt machine.memory.bytes.toList d.machine.pc.toNat
      { d with machine, notice := .stepped d.machine.pc text }.report
    | (.error e, machine) => { d with machine, running := false, notice := .failed e }
  else { d with running := false, notice := .cannotStep d.machine.status }

def run (d : Debugger) : Debugger :=
  if d.machine.status = .waiting then { d with notice := .waiting }
  else { d with running := true, notice := .running }

def pause (d : Debugger) : Debugger :=
  { d with machine := d.machine.pause, running := false, notice := .paused }

def tick (d : Debugger) : Debugger :=
  if d.running then
    { d with machine := (d.machine.runLimited Monitor.system portion).2 }.report
  else d

def isWaiting (d : Debugger) : Bool := d.machine.status == .waiting

def type (d : Debugger) (s : String) : Debugger := { d with input := d.input ++ s }

def submit (d : Debugger) : Debugger :=
  { d with
    machine := (d.machine.provideInput (d.input ++ "\n")).pause
    input := ""
    notice := if d.running then .running else .inputAccepted }

def hasBreakpoint (d : Debugger) (a : Word) : Bool := d.machine.breakpoints.contains a

/-- Sets a breakpoint at the program counter, or removes the one that is there. -/
def toggleBreakpoint (d : Debugger) : Debugger :=
  let pc := d.machine.pc
  let (removed, machine) := d.machine.removeBreakpoint pc
  if removed then { d with machine, notice := .breakpointRemoved pc }
  else { d with machine := machine.addBreakpoint pc, notice := .breakpointSet pc }

/-- Loads the program again. Breakpoints stay. -/
def reset (d : Debugger) : Debugger :=
  let (loaded, machine) := d.machine.load Monitor.system d.program
  { d with
    machine
    running := false
    input := ""
    notice := match loaded with
      | .ok () => .reset
      | .error e => .loadFailed e }

def scrollMemory (d : Debugger) (rows : Int) : Debugger :=
  { d with scroll := min ((d.scroll : Int) + rows).toNat lastRow }

def setRegister (d : Debugger) (r : Register) (w : Word) : Debugger :=
  { d with machine := d.machine.setRegister r w }

/-- The instructions of memory from an address to the end of the code. -/
def sweep (address limit : Nat) (bytes : List Byte) : List (Nat × String) :=
  if address < limit then
    let found := Listing.front bytes
    (address, found.1) :: sweep (address + found.2) limit (bytes.drop found.2)
  else []
termination_by limit - address
decreasing_by have := Listing.front_size_pos bytes; omega

/-- Some lines of code around the program counter, each with its address and whether it is the
current one. Without a current line the code is shown from its start. -/
def disassembly (d : Debugger) (lines : Nat) : List (Nat × String × Bool) :=
  let pc := d.machine.pc.toNat
  let code := sweep 0 d.program.code.length d.machine.memory.bytes.toList
  let current := (code.findIdx? fun (a, _) => a == pc).getD 0
  ((code.drop (current - lines / 2)).take lines).map fun (a, text) => (a % 65536, text, a == pc)

def registers (d : Debugger) : List (Register × Word) :=
  Register.all.map fun r => (r, d.machine.registers.get r)

end Debugger

end Minicomputer
