import Minicomputer.Console
import Minicomputer.Machine.Announcement
import Minicomputer.Machine.Fault
import Minicomputer.Program.Basic

/-!
# Machines

The state of the whole computer, and what can be done to it from outside short of running it. The
operating system is a value of some type `σ`; it is taken out of the machine while it serves a call.
-/

set_option autoImplicit false

namespace Minicomputer

/-- What a debug instruction noted: a debug string, or the number of one that is missing. -/
inductive LogEntry where
  | text (s : String)
  | missing (index : Byte)
  deriving DecidableEq, Repr

structure Machine (σ : Type) where
  registers : RegisterFile
  memory : Memory
  cycles : Nat
  status : Status
  /-- Instructions a second, or zero for no limit. It changes nothing but time. -/
  speed : Nat
  console : Console
  audience : Audience
  system : Option σ
  pauseRequested : Bool
  /-- Addresses to stop at, in ascending order. -/
  breakpoints : List Word
  debugInfo : Option DebugInfo
  fault : Option Fault
  log : Array LogEntry

inductive Reply where
  | proceed
  | exit
  /-- There is no input yet; the call is to be made again. -/
  | needsInput
  deriving DecidableEq, Repr

/-- An operating system. A call may do anything to the machine, from which the system's own state is
missing while it lasts. -/
structure System (σ : Type) where
  call : Byte → σ → StateM (Machine σ) (Except Fault Reply × σ)
  reset : σ → σ

namespace Machine

variable {σ : Type}

/-- All registers are zero except the stack pointer, which stands behind the last byte of memory. -/
def initialRegisters : RegisterFile := RegisterFile.zero.set .sp (UInt16.ofNat memorySize)

def new (system : σ) : Machine σ where
  registers := initialRegisters
  memory := .zero
  cycles := 0
  status := .ready
  speed := 0
  console := {}
  audience := {}
  system := some system
  pauseRequested := false
  breakpoints := []
  debugInfo := none
  fault := none
  log := #[]

def pc (m : Machine σ) : Word := m.registers.pc

def announce (m : Machine σ) (news : List Announcement) : Machine σ :=
  { m with audience := m.audience.announce news }

/-- Only a change of status is announced. -/
def setStatus (m : Machine σ) (status : Status) : Machine σ :=
  if m.status = status then m
  else { m with status }.announce [.statusChanged m.status status]

/-- Back to the state of a new machine. Breakpoints, speed and listeners stay. -/
def reset (S : System σ) (m : Machine σ) : Machine σ :=
  let m := { m with
    registers := initialRegisters
    memory := .zero
    console := {}
    cycles := 0
    fault := none
    debugInfo := none
    pauseRequested := false
    system := m.system.map S.reset }
  (m.setStatus .ready).announce [.reset]

/-- A reset, then code from address zero and data behind it. What fits is stored even where the rest
does not. -/
def load (S : System σ) (p : Program) (m : Machine σ) : Except Fault Unit × Machine σ :=
  let m := m.reset S
  match m.memory.loadImage 0 p.code with
  | .error e => (.error (.memory e), m)
  | .ok memory =>
    let m := { m with memory }
    match m.memory.loadImage p.code.length p.data with
    | .error e => (.error (.memory e), m)
    | .ok memory =>
      let codeEnd := UInt16.ofNat p.code.length
      let dataEnd := UInt16.ofNat (p.code.length + p.data.length)
      (.ok (), { m with
        memory
        registers := ((m.registers.set .cb (codeEnd - 1)).set .db (dataEnd - 1)).set .bp dataEnd
        debugInfo := p.debugInfo })

/-- Ends a run, a wait or a stop at a breakpoint. -/
def pause (m : Machine σ) : Machine σ :=
  match m.status with
  | .executing | .waiting | .breakpoint => m.setStatus .ready
  | _ => m

def requestPause (m : Machine σ) : Machine σ := { m with pauseRequested := true }

private def insertOrdered (a : Word) : List Word → List Word
  | [] => [a]
  | b :: bs => if a < b then a :: b :: bs else if a = b then b :: bs else b :: insertOrdered a bs

def addBreakpoint (m : Machine σ) (a : Word) : Machine σ :=
  { m with breakpoints := insertOrdered a m.breakpoints }

/-- Removes a breakpoint and tells whether there was one. -/
def removeBreakpoint (m : Machine σ) (a : Word) : Bool × Machine σ :=
  (m.breakpoints.contains a, { m with breakpoints := m.breakpoints.erase a })

def setRegister (m : Machine σ) (r : Register) (w : Word) : Machine σ :=
  { m with registers := m.registers.set r w }.announce [.registerUpdated r w]

/-- The flags are announced with their new value, changed or not. -/
def setTestFlag (m : Machine σ) (value : Bool) : Machine σ :=
  let registers := m.registers.setTestFlag value
  { m with registers }.announce [.registerUpdated .flags (registers.get .flags)]

def writeByte (m : Machine σ) (a : Int) (b : Byte) : Except MemoryFault (Machine σ) := do
  let memory ← m.memory.writeByte a b
  return { m with memory }.announce [.memoryUpdated (Word.ofInt a) b]

def writeWord (m : Machine σ) (a : Int) (w : Word) : Except MemoryFault (Machine σ) := do
  let memory ← m.memory.writeWord a w
  return { m with memory }.announce
    [.memoryUpdated (Word.ofInt a) w.high, .memoryUpdated (Word.ofInt (a + 1)) w.low]

def print (m : Machine σ) (s : String) : Machine σ :=
  { m with console := m.console.print s }.announce [.printed s]

def provideInput (m : Machine σ) (s : String) : Machine σ :=
  { m with console := m.console.provide s }

def takeOutput (m : Machine σ) : String × Machine σ :=
  let (s, console) := m.console.takeOutput
  (s, { m with console })

def text (m : Machine σ) : String :=
  "Cpu \x7b status: " ++ m.status.name ++ ", cycles: " ++ toString m.cycles ++ ", regs: " ++
    m.registers.text ++ ", mem: " ++ m.memory.text ++ " \x7d"

@[simp] theorem status_setStatus (m : Machine σ) (status : Status) :
    (m.setStatus status).status = status := by
  unfold setStatus announce
  split <;> simp_all

@[simp] theorem registers_setStatus (m : Machine σ) (status : Status) :
    (m.setStatus status).registers = m.registers := by
  unfold setStatus announce
  split <;> rfl

@[simp] theorem memory_setStatus (m : Machine σ) (status : Status) :
    (m.setStatus status).memory = m.memory := by
  unfold setStatus announce
  split <;> rfl

private theorem mem_insertOrdered {a b : Word} {l : List Word} :
    b ∈ insertOrdered a l ↔ b = a ∨ b ∈ l := by
  induction l with
  | nil => exact List.mem_cons
  | cons c l ih =>
    unfold insertOrdered
    split
    · exact List.mem_cons
    · split
      · next h => simp [h]
      · simp [ih, or_left_comm]

private theorem pairwise_insertOrdered {l : List Word} (h : l.Pairwise (· < ·)) (a : Word) :
    (insertOrdered a l).Pairwise (· < ·) := by
  induction l with
  | nil => exact List.pairwise_singleton _ a
  | cons c l ih =>
    obtain ⟨hc, hl⟩ := List.pairwise_cons.mp h
    unfold insertOrdered
    split
    · next hac =>
      refine List.pairwise_cons.mpr ⟨fun b hb => ?_, h⟩
      obtain rfl | hb := List.mem_cons.mp hb
      · exact hac
      · exact UInt16.lt_trans hac (hc b hb)
    · next hac =>
      split
      · exact h
      · next hne =>
        refine List.pairwise_cons.mpr ⟨fun b hb => ?_, ih hl⟩
        obtain rfl | hb := mem_insertOrdered.mp hb
        · exact UInt16.lt_of_le_of_ne (UInt16.not_lt.mp hac) fun e => hne e.symm
        · exact hc b hb

theorem mem_breakpoints_addBreakpoint {m : Machine σ} {a b : Word} :
    b ∈ (m.addBreakpoint a).breakpoints ↔ b = a ∨ b ∈ m.breakpoints :=
  mem_insertOrdered

theorem pairwise_breakpoints_addBreakpoint {m : Machine σ} (h : m.breakpoints.Pairwise (· < ·))
    (a : Word) : (m.addBreakpoint a).breakpoints.Pairwise (· < ·) :=
  pairwise_insertOrdered h a

end Machine

end Minicomputer
