import Minicomputer.Arithmetic
import Minicomputer.Instruction.Encoding
import Minicomputer.Machine.Basic

/-!
# Execution

What each instruction does, and one cycle of fetching, decoding and executing. Addresses are words
and wrap; a word that starts at the last byte of memory is out of range. What an instruction did
before a fault stays done.
-/

set_option autoImplicit false

namespace Minicomputer

abbrev Action (σ α : Type) := ExceptT Fault (StateM (Machine σ)) α

namespace Action

variable {σ : Type}

def ofMemory {α : Type} : Except MemoryFault α → Action σ α
  | .ok a => pure a
  | .error e => throw (.memory e)

def register (r : Register) : Action σ Word := return (← get).registers.get r

def setRegister (r : Register) (w : Word) : Action σ Unit := modify (·.setRegister r w)

def setTestFlag (value : Bool) : Action σ Unit := modify (·.setTestFlag value)

def setStatus (status : Status) : Action σ Unit := modify (·.setStatus status)

def announce (a : Announcement) : Action σ Unit := modify (·.announce [a])

def print (s : String) : Action σ Unit := modify (·.print s)

def loadByte (a : Int) : Action σ Byte := do ofMemory ((← get).memory.readByte a)

def loadWord (a : Int) : Action σ Word := do ofMemory ((← get).memory.readWord a)

def loadText (a : Int) : Action σ String := do ofMemory ((← get).memory.readText a)

def storeByte (a : Int) (b : Byte) : Action σ Unit := do set (← ofMemory ((← get).writeByte a b))

def storeWord (a : Int) (w : Word) : Action σ Unit := do set (← ofMemory ((← get).writeWord a w))

/-- The address some bytes behind a base, which wraps. -/
def offset (base distance : Word) : Int := (base + distance).toNat

/-- Copies bytes one by one, from the `i`th on. -/
def copy (source target : Nat → Int) (i : Nat) : Nat → Action σ Unit
  | 0 => pure ()
  | n + 1 => do
    storeByte (target i) (← loadByte (source i))
    copy source target (i + 1) n

def arith (op : ArithOp) (lhs rhs : Word) : Action σ Word :=
  match op.apply lhs rhs with
  | some w => pure w
  | none => throw .divisionByZero

def push (stack : Register) (w : Word) : Action σ Unit := do
  let sp := (← register stack) - 2
  setRegister stack sp
  storeWord (offset sp 0) w

def rearrange (op : StackOp) (stack : Register) : Action σ Unit := do
  let sp ← register stack
  match op with
  | .dup => push stack (← loadWord (offset sp 0))
  | .swap =>
    let top ← loadWord (offset sp 0)
    let next ← loadWord (offset sp 2)
    storeWord (offset sp 0) next
    storeWord (offset sp 2) top
  | .drop => setRegister stack (sp + 2)
  | .pick => push stack (← loadWord (offset sp 2))
  | .rot =>
    let top ← loadWord (offset sp 0)
    let next ← loadWord (offset sp 2)
    let third ← loadWord (offset sp 4)
    storeWord (offset sp 0) third
    storeWord (offset sp 2) top
    storeWord (offset sp 4) next

/-- An operation on the top of a stack, which does not touch the test flag. -/
def stackArith (op : ArithOp) (stack : Register) : Action σ Unit := do
  let sp ← register stack
  let top ← loadWord (offset sp 0)
  if op.isUnary then
    storeWord (offset sp 0) (← arith op top top)
  else
    let next ← loadWord (offset sp 2)
    let result ← arith op next top
    setRegister stack (sp + 2)
    storeWord (offset (sp + 2) 0) result

def arithTo (op : ArithOp) (target : Register) (rhs : Word) : Action σ Unit := do
  let result ← arith op (← register target) rhs
  setRegister target result
  setTestFlag (result != 0)

/-- The value of an offset register, zero where there is none. -/
def distance : Option Register → Action σ Word
  | some r => register r
  | none => pure 0

def loadWordTo (reg : Register) (a : Int) : Action σ Unit := do setRegister reg (← loadWord a)

def loadByteTo (reg : Register) (a : Int) : Action σ Unit := do
  setRegister reg (Word.signExtend (← loadByte a))

def storeWordOf (reg : Register) (a : Int) : Action σ Unit := do storeWord a (← register reg)

def storeByteOf (reg : Register) (a : Int) : Action σ Unit := do
  storeByte a (← register reg).low

def access (op : AccessOp) (reg : Register) (address : Word) (a : Int) : Action σ Unit :=
  match op with
  | .lw => loadWordTo reg a
  | .lb => loadByteTo reg a
  | .sw => storeWordOf reg a
  | .sb => storeByteOf reg a
  | .li => setRegister reg address

def indexed (op : IndexedOp) (reg : Register) (a : Int) : Action σ Unit :=
  match op with
  | .lwr => loadWordTo reg a
  | .lbr => loadByteTo reg a
  | .swr => storeWordOf reg a
  | .sbr => storeByteOf reg a

def debug (index : Byte) : Action σ Unit :=
  modify fun m =>
    let entry := match m.debugInfo.bind (·.debugString? index.toNat m.registers) with
      | some s => LogEntry.text s
      | none => .missing index
    { m with log := m.log.push entry }

/-- Hands a call to the operating system. A call that wants input is set up to be made again. -/
def systemCall (S : System σ) (selector : Byte) : Action σ Unit := do
  match (← get).system with
  | none => throw (.systemCall "system call made while one is in progress")
  | some system =>
    modify fun m => { m with system := none }
    let (reply, system) ← liftM (S.call selector system)
    modify fun m => { m with system := some system }
    match reply with
    | .error e => throw e
    | .ok .proceed => pure ()
    | .ok .exit => setStatus .finished
    | .ok .needsInput =>
      setRegister .pc ((← register .pc) - 2)
      setStatus .waiting

def jump (kind : JumpKind) (target : Word) : Action σ Unit := do
  match kind with
  | .j => setRegister .pc target
  | .jz => if !(← get).registers.testFlag then setRegister .pc target
  | .jnz => if (← get).registers.testFlag then setRegister .pc target
  | .jal =>
    setRegister .ra (← register .pc)
    setRegister .pc target

/-- The effect of an instruction behind which the program counter already stands. -/
def execute (S : System σ) : Instruction → Action σ Unit
  | .sys call => systemCall S call
  | .mv target source => do setRegister target (← register source)
  | .inc target amount => do setRegister target ((← register target) + amount.toUInt16)
  | .dec target amount => do setRegister target ((← register target) - amount.toUInt16)
  | .seti target value => setRegister target value.toUInt16
  | .mcp source target size => do
    let source ← register source
    let target ← register target
    copy (fun i => offset source (UInt16.ofNat i)) (fun i => offset target (UInt16.ofNat i)) 0
      size.toNat
  | .debug index => debug index
  | .nop => pure ()
  | .arith op target source => do arithTo op target (← register source)
  | .arithImm op target value => arithTo op target value
  | .push source stack => do push stack (← register source)
  | .pop target stack => do
    setRegister target (← loadWord (offset (← register stack) 0))
    setRegister stack ((← register stack) + 2)
  | .rearrange op stack => rearrange op stack
  | .sop op stack => stackArith op stack
  | .pushImm value stack => push stack value
  | .test op lhs rhs => do setTestFlag (op.holds (← register lhs).signed (← register rhs).signed)
  | .testImm op lhs value => do setTestFlag (op.holds (← register lhs).signed value.toNat)
  | .access op reg off address => do access op reg address (offset address (← distance off))
  | .indexed op reg base off => do indexed op reg (offset (← register base) (← distance off))
  | .jumpReg reg => do setRegister .pc (← register reg)
  | .jump kind target => jump kind target

/-- Reads the instruction at the program counter into the instruction and data registers. -/
def fetch : Action σ (Word × Word) := do
  let pc ← register .pc
  let word ← loadWord pc.toNat
  setRegister .ir word
  let data ← if Instruction.isLong word then loadWord (pc.toNat + 2) else pure 0
  setRegister .dr data
  announce (.fetched pc word)
  return (word, data)

def fetchAndExecute (S : System σ) : Action σ Instruction := do
  let pc ← register .pc
  let (word, data) ← fetch
  match Instruction.decode word data with
  | none => throw (.undecodable word)
  | some i =>
    setRegister .pc (pc + UInt16.ofNat i.size)
    announce (.beforeExecution word)
    execute S i
    announce (.afterExecution word)
    modify fun m => { m with cycles := m.cycles + 1 }
    return i

end Action

namespace Machine

variable {σ : Type}

def fail (e : Fault) (m : Machine σ) : Machine σ :=
  { m with registers := m.registers.setErrorFlag true, fault := some e }.setStatus .permanentError

/-- One cycle, in which a fault stops the machine. -/
def cycle (S : System σ) (m : Machine σ) : Except Fault Instruction × Machine σ :=
  match (Action.fetchAndExecute S).run m with
  | (.ok i, m) => (.ok i, m)
  | (.error e, m) => (.error e, m.fail e)

/-- Executes one instruction, from a status that allows it. -/
def step (S : System σ) (m : Machine σ) : Except Fault Instruction × Machine σ :=
  if m.status.isResumable then (m.setStatus .executing).cycle S
  else (.error (.notRunnable m.status), m)

end Machine

end Minicomputer
