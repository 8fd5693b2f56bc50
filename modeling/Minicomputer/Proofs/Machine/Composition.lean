import Mathlib
import Minicomputer.Machine.Execute
import Minicomputer.Proofs.Instruction.Canonical

/-!
# What instructions are made of

An instruction is put together from few elementary actions: it reads and writes registers and
memory, prints, notes a debug string, or ends in a fault. Whatever holds of these and of one action
after the other holds of every instruction. System calls are not among them, as it is up to the
operating system what they do.
-/

set_option autoImplicit false

namespace Minicomputer.Action

variable {σ : Type}

/-- Actions that are put together from elementary ones. The flags are written by tests only. -/
inductive Composed : {α : Type} → Action σ α → Prop where
  | pure {α : Type} (a : α) : Composed (pure a)
  | throw {α : Type} (e : Fault) : Composed (throw e : Action σ α)
  | bind {α β : Type} {x : Action σ α} {f : α → Action σ β} (hx : Composed x)
      (hf : ∀ a, Composed (f a)) : Composed (x >>= f)
  | register (r : Register) : Composed (register r)
  | setRegister {r : Register} (hr : r ≠ .flags) (w : Word) : Composed (setRegister r w)
  | setTestFlag (value : Bool) : Composed (setTestFlag value)
  | loadByte (a : Int) : Composed (loadByte a)
  | loadWord (a : Int) : Composed (loadWord a)
  | loadText (a : Int) : Composed (loadText a)
  | storeByte (a : Int) (b : Byte) : Composed (storeByte a b)
  | storeWord (a : Int) (w : Word) : Composed (storeWord a w)
  | print (s : String) : Composed (print s)
  | debug (index : Byte) : Composed (debug index)

theorem composed_arith (op : ArithOp) (lhs rhs : Word) :
    Composed (arith op lhs rhs : Action σ Word) := by
  unfold arith
  cases op.apply lhs rhs with
  | some w => exact .pure w
  | none => exact .throw _

theorem composed_copy (source target : Nat → Int) (i n : Nat) :
    Composed (copy source target i n : Action σ Unit) := by
  induction n generalizing i with
  | zero => exact .pure ()
  | succ n ih => exact .bind (.loadByte _) fun b => .bind (.storeByte _ b) fun _ => ih _

theorem composed_push {stack : Register} (hs : stack ≠ .flags) (w : Word) :
    Composed (push stack w : Action σ Unit) :=
  .bind (.register stack) fun _ => .bind (.setRegister hs _) fun _ => .storeWord _ w

theorem composed_rearrange {stack : Register} (hs : stack ≠ .flags) (op : StackOp) :
    Composed (rearrange op stack : Action σ Unit) := by
  apply Composed.bind (.register stack)
  intro sp
  cases op with
  | dup => exact .bind (.loadWord _) fun w => composed_push hs w
  | swap =>
    exact .bind (.loadWord _) fun top => .bind (.loadWord _) fun next =>
      .bind (.storeWord _ next) fun _ => .storeWord _ top
  | drop => exact .setRegister hs _
  | pick => exact .bind (.loadWord _) fun w => composed_push hs w
  | rot =>
    exact .bind (.loadWord _) fun top => .bind (.loadWord _) fun next =>
      .bind (.loadWord _) fun third => .bind (.storeWord _ third) fun _ =>
        .bind (.storeWord _ top) fun _ => .storeWord _ next

theorem composed_stackArith {stack : Register} (hs : stack ≠ .flags) (op : ArithOp) :
    Composed (stackArith op stack : Action σ Unit) := by
  apply Composed.bind (.register stack)
  intro sp
  apply Composed.bind (.loadWord _)
  intro top
  split
  · exact .bind (composed_arith op top top) fun w => .storeWord _ w
  · exact .bind (.loadWord _) fun next => .bind (composed_arith op next top) fun w =>
      .bind (.setRegister hs _) fun _ => .storeWord _ w

theorem composed_arithTo {target : Register} (ht : target ≠ .flags) (op : ArithOp) (rhs : Word) :
    Composed (arithTo op target rhs : Action σ Unit) :=
  .bind (.register target) fun lhs => .bind (composed_arith op lhs rhs) fun _ =>
    .bind (.setRegister ht _) fun _ => .setTestFlag _

theorem composed_distance (offset : Option Register) :
    Composed (distance offset : Action σ Word) := by
  cases offset with
  | some r => exact .register r
  | none => exact .pure 0

theorem composed_loadWordTo {reg : Register} (hr : reg ≠ .flags) (a : Int) :
    Composed (loadWordTo reg a : Action σ Unit) :=
  .bind (.loadWord a) fun w => .setRegister hr w

theorem composed_loadByteTo {reg : Register} (hr : reg ≠ .flags) (a : Int) :
    Composed (loadByteTo reg a : Action σ Unit) :=
  .bind (.loadByte a) fun _ => .setRegister hr _

theorem composed_storeWordOf (reg : Register) (a : Int) :
    Composed (storeWordOf reg a : Action σ Unit) :=
  .bind (.register reg) fun w => .storeWord a w

theorem composed_storeByteOf (reg : Register) (a : Int) :
    Composed (storeByteOf reg a : Action σ Unit) :=
  .bind (.register reg) fun _ => .storeByte a _

theorem composed_access {reg : Register} (hr : reg ≠ .flags) (op : AccessOp) (address : Word)
    (a : Int) : Composed (access op reg address a : Action σ Unit) := by
  cases op with
  | lw => exact composed_loadWordTo hr a
  | lb => exact composed_loadByteTo hr a
  | sw => exact composed_storeWordOf reg a
  | sb => exact composed_storeByteOf reg a
  | li => exact .setRegister hr address

theorem composed_indexed {reg : Register} (hr : reg ≠ .flags) (op : IndexedOp) (a : Int) :
    Composed (indexed op reg a : Action σ Unit) := by
  cases op with
  | lwr => exact composed_loadWordTo hr a
  | lbr => exact composed_loadByteTo hr a
  | swr => exact composed_storeWordOf reg a
  | sbr => exact composed_storeByteOf reg a

theorem composed_jump (kind : JumpKind) (target : Word) :
    Composed (jump kind target : Action σ Unit) := by
  have go : Composed (setRegister .pc target : Action σ Unit) := .setRegister (by decide) target
  -- A conditional jump looks at the flags register, of which it needs the lowest bit.
  have branch (taken : Word → Bool) : Composed (σ := σ)
      (register .flags >>= fun w => if taken w then setRegister .pc target else pure ()) := by
    apply Composed.bind (.register .flags)
    intro w
    split
    · exact go
    · exact .pure ()
  cases kind with
  | j => exact go
  | jz => exact branch fun w => !(w &&& 1 != 0)
  | jnz => exact branch fun w => w &&& 1 != 0
  | jal => exact .bind (.register .pc) fun w => .bind (.setRegister (by decide) w) fun _ => go

/-- Every instruction but a system call is put together from elementary actions. -/
theorem composed_execute (S : System σ) {i : Instruction} (hc : i.Canonical)
    (hs : ∀ call, i ≠ .sys call) : Composed (execute S i) := by
  have ne {r : Register} (h : r.isReadable = true) : r ≠ .flags := by
    rintro rfl
    cases h
  cases i with
  | sys call => exact absurd rfl (hs call)
  | mv => exact .bind (.register _) fun _ => .setRegister (ne hc.1) _
  | inc | dec => exact .bind (.register _) fun _ => .setRegister (ne hc.1) _
  | seti => exact .setRegister (ne hc.1) _
  | mcp => exact .bind (.register _) fun _ => .bind (.register _) fun _ => composed_copy _ _ _ _
  | debug index => exact .debug index
  | nop => exact .pure ()
  | arith op => exact .bind (.register _) fun _ => composed_arithTo (ne hc.1) op _
  | arithImm op _ value => exact composed_arithTo (ne hc) op value
  | push => exact .bind (.register _) fun w => composed_push (ne hc.2) w
  | pop =>
    exact .bind (.register _) fun _ => .bind (.loadWord _) fun _ =>
      .bind (.setRegister (ne hc.1) _) fun _ => .bind (.register _) fun _ =>
        .setRegister (ne hc.2) _
  | rearrange op => exact composed_rearrange (ne hc) op
  | sop op => exact composed_stackArith (ne hc) op
  | pushImm value => exact composed_push (ne hc) value
  | test => exact .bind (.register _) fun _ => .bind (.register _) fun _ => .setTestFlag _
  | testImm => exact .bind (.register _) fun _ => .setTestFlag _
  | access op _ offset address =>
    exact .bind (composed_distance offset) fun _ => composed_access (ne hc.1) op address _
  | indexed op _ _ offset =>
    exact .bind (.register _) fun _ => .bind (composed_distance offset) fun _ =>
      composed_indexed (ne hc.1) op _
  | jumpReg => exact .bind (.register _) fun _ => .setRegister (by decide) _
  | jump kind target => exact composed_jump kind target

/-- The second word of a long instruction, and zero for a short one. -/
def loadData (pc word : Word) : Action σ Word :=
  if Instruction.isLong word then loadWord (pc.toNat + 2) else pure 0

theorem composed_loadData (pc word : Word) : Composed (loadData pc word : Action σ Word) := by
  unfold loadData
  split
  · exact .loadWord _
  · exact .pure 0

theorem fetch_eq : fetch (σ := σ) = do
    let pc ← register .pc
    let word ← loadWord pc.toNat
    setRegister .ir word
    let data ← loadData pc word
    setRegister .dr data
    announce (.fetched pc word)
    return (word, data) := by
  unfold fetch loadData
  refine congrArg _ (funext fun pc => congrArg _ (funext fun word => ?_))
  refine congrArg _ (funext fun _ => ?_)
  dsimp only
  split <;> rfl

end Minicomputer.Action
