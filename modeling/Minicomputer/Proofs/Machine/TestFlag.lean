import Minicomputer.Proofs.Machine.Footprint
import Minicomputer.Proofs.Machine.WordStack

/-!
# Results and the test flag

An operation has three forms: on two registers, on a register and a constant, and on the words of a
stack. All three take their operands in the same order and write the same result. A result in a
register sets the test flag; a result on a stack leaves the flag as it was, so that a jump behind it
still goes by the last test.
-/

set_option autoImplicit false

namespace Minicomputer

namespace RegisterFile

theorem testFlag_setTestFlag (f : RegisterFile) (value : Bool) :
    (f.setTestFlag value).testFlag = value := by
  unfold testFlag
  rw [get_flags_setTestFlag]
  cases value with
  | false =>
    have hmask : ~~~(1 : Word) &&& 1 = 0 := rfl
    rw [if_neg Bool.false_ne_true, UInt16.and_assoc, hmask, UInt16.and_zero]
    rfl
  | true =>
    have hbit : (f.get .flags ||| 1) &&& 1 = 1 := by
      apply UInt16.toNat_inj.mp
      rw [UInt16.toNat_and, UInt16.toNat_or]
      simp
    rw [if_pos rfl, hbit]
    rfl

theorem testFlag_congr {f g : RegisterFile} (h : g.get .flags = f.get .flags) :
    g.testFlag = f.testFlag := by
  unfold testFlag
  rw [h]

end RegisterFile

/-- How far the operation moves the stack pointer. -/
def ArithOp.popped (op : ArithOp) : Word := if op.isUnary then 0 else 2

namespace Instruction

/-- The operation that an instruction applies. -/
def operation? : Instruction → Option ArithOp
  | arith op _ _ | arithImm op _ _ | sop op _ => some op
  | _ => none

/-- The stack that the operands are taken from. -/
def stack? : Instruction → Option Register
  | sop _ stack => some stack
  | _ => none

/-- The operands, by the registers and the memory that the instruction finds. The top of a stack is
on the right, and on both sides of an operation that takes one word. -/
def operands? (f : RegisterFile) (m : Memory) : Instruction → Option (Word × Word)
  | arith _ target source => some (f.get target, f.get source)
  | arithImm _ target value => some (f.get target, value)
  | sop op stack =>
    (m.readWord (Action.offset (f.get stack) 0)).toOption.bind fun top =>
      if op.isUnary then some (top, top)
      else (m.readWord (Action.offset (f.get stack) 2)).toOption.map (·, top)
  | _ => none

theorem operands?_congr {i : Instruction} (hi : i.Canonical) {f g : RegisterFile} (m : Memory)
    (h : ∀ r : Register, r.isReadable = true → f.get r = g.get r) :
    i.operands? f m = i.operands? g m := by
  cases i with
  | arith op target source =>
    simp only [operands?, h target hi.1, h source hi.2.1]
  | arithImm op target value =>
    simp only [operands?, h target hi]
  | sop op stack =>
    simp only [operands?, h stack hi]
  | _ => rfl

/-- What is found afterwards where an operation leaves its result. -/
def result? (f : RegisterFile) (m : Memory) : Instruction → Option Word
  | arith _ target _ | arithImm _ target _ => some (f.get target)
  | sop _ stack => (m.readWord (Action.offset (f.get stack) 0)).toOption
  | _ => none

end Instruction

namespace Action

variable {σ : Type} {m n : Machine σ} {op : ArithOp} {i : Instruction} {w : Word} {a : Int}

/-! ### What an action that succeeds has done -/

theorem apply_of_run_arith {lhs rhs : Word} (h : (arith op lhs rhs).run m = (.ok w, n)) :
    op.apply lhs rhs = some w := by
  unfold arith at h
  split at h <;> cases h
  next hw => exact hw

/-- A word that was stored is found again. -/
theorem readWord_of_run_storeWord (h : (storeWord a w).run m = (.ok (), n)) :
    n.memory.readWord a = .ok w := by
  rw [run_storeWord] at h
  split at h <;> cases h
  next memory hw =>
    obtain ⟨half, hhigh, hlow⟩ := Memory.writeByte_of_writeWord hw
    obtain ⟨i, rfl, -⟩ := Memory.writeByte_eq_ok_iff.mp hhigh
    obtain ⟨j, hj, -⟩ := Memory.writeByte_eq_ok_iff.mp hlow
    obtain ⟨n, hn, hread, -⟩ := m.memory.exists_writeWord (a := i) (by omega) w
    obtain rfl : memory = n := Except.ok.inj (hw.symm.trans hn)
    exact hread

/-! ### The three forms -/

/-- The instruction has applied the operation to its operands, and has left the result in its
place. -/
structure Computes (op : ArithOp) (i : Instruction) (m n : Machine σ) (w : Word) : Prop where
  value : ∃ lhs rhs, i.operands? m.registers m.memory = some (lhs, rhs) ∧ op.apply lhs rhs = some w
  result : i.result? n.registers n.memory = some w
  pointer : ∀ stack, i.stack? = some stack →
    n.registers.get stack = m.registers.get stack + op.popped

theorem run_arithTo_eq_ok {target : Register} {rhs : Word} (ht : target ≠ .flags)
    (h : (arithTo op target rhs).run m = (.ok (), n)) :
    ∃ w, op.apply (m.registers.get target) rhs = some w ∧ n.registers.get target = w ∧
      n.registers.testFlag = (w != 0) := by
  obtain ⟨lhs, hlhs, h⟩ := (looks_register target).bind_eq_ok h
  cases hlhs
  obtain ⟨w, hw, h⟩ := (looks_arith op _ rhs).bind_eq_ok h
  cases h
  refine ⟨w, apply_of_run_arith hw, ?_, RegisterFile.testFlag_setTestFlag _ _⟩
  exact (RegisterFile.get_set_of_ne _ _ ht.symm).trans (RegisterFile.get_set_self _ _ _)

theorem computes_stackArith {stack : Register} (h : (stackArith op stack).run m = (.ok (), n)) :
    ∃ w, Computes op (.sop op stack) m n w := by
  obtain ⟨sp, hsp, h⟩ := (looks_register stack).bind_eq_ok h
  cases hsp
  obtain ⟨top, htop, h⟩ := (looks_loadWord _).bind_eq_ok h
  have htop := readWord_of_run_loadWord htop
  cases hu : op.isUnary with
  | true =>
    simp only [hu, ↓reduceIte] at h
    obtain ⟨w, hw, h⟩ := (looks_arith op top top).bind_eq_ok h
    have hregisters := registers_of_run_storeWord h
    refine ⟨w, ⟨top, top, ?_, apply_of_run_arith hw⟩, ?_, ?_⟩
    · simp only [Instruction.operands?, htop, hu, Except.toOption, Option.bind_some, ↓reduceIte]
    · rw [Instruction.result?, hregisters, readWord_of_run_storeWord h]
      rfl
    · rintro _ ⟨⟩
      rw [hregisters, ArithOp.popped, if_pos hu, UInt16.add_zero]
  | false =>
    simp only [hu, Bool.false_eq_true, ↓reduceIte] at h
    obtain ⟨next, hnext, h⟩ := (looks_loadWord _).bind_eq_ok h
    have hnext := readWord_of_run_loadWord hnext
    obtain ⟨w, hw, h⟩ := (looks_arith op next top).bind_eq_ok h
    obtain ⟨_, k, hset, h⟩ := run_bind_eq_ok h
    cases hset
    have hpointer : n.registers.get stack = m.registers.get stack + 2 := by
      rw [registers_of_run_storeWord h]
      exact RegisterFile.get_set_self _ _ _
    refine ⟨w, ⟨next, top, ?_, apply_of_run_arith hw⟩, ?_, ?_⟩
    · simp only [Instruction.operands?, htop, hnext, hu, Except.toOption, Option.bind_some,
        Option.map_some, Bool.false_eq_true, ↓reduceIte]
    · rw [Instruction.result?, hpointer, readWord_of_run_storeWord h]
      rfl
    · rintro _ ⟨⟩
      rw [hpointer, ArithOp.popped, if_neg (Bool.eq_false_iff.mp hu)]

variable (S : System σ)

/-- One instruction, in any of the three forms. -/
theorem execute_operation (hi : i.Canonical) (hop : i.operation? = some op)
    (h : (execute S i).run m = (.ok (), n)) :
    ∃ w, Computes op i m n w ∧
      n.registers.testFlag = if i.stack?.isSome then m.registers.testFlag else w != 0 := by
  cases i with
  | arith op' target source =>
    cases hop
    obtain ⟨rhs, hrhs, h⟩ := (looks_register source).bind_eq_ok h
    cases hrhs
    have ht : target ≠ .flags := by
      rintro rfl
      cases hi.1
    obtain ⟨w, hw, hresult, hflag⟩ := run_arithTo_eq_ok ht h
    exact ⟨w, ⟨⟨_, _, rfl, hw⟩, congrArg some hresult, nofun⟩, hflag⟩
  | arithImm op' target value =>
    cases hop
    have ht : target ≠ .flags := by
      rintro rfl
      cases hi
    obtain ⟨w, hw, hresult, hflag⟩ := run_arithTo_eq_ok ht h
    exact ⟨w, ⟨⟨_, _, rfl, hw⟩, congrArg some hresult, nofun⟩, hflag⟩
  | sop op' stack =>
    cases hop
    have hs : .flags ≠ stack := by
      rintro rfl
      cases hi
    have hflags := leaves_stackArith hs op m
    obtain ⟨w, hw⟩ := computes_stackArith h
    refine ⟨w, hw, RegisterFile.testFlag_congr ?_⟩
    have h : (stackArith op stack).run m = (.ok (), n) := h
    rw [h] at hflags
    exact hflags
  | _ => cases hop

end Action

namespace Machine

variable {σ : Type} {m n : Machine σ} {i : Instruction} {op : ArithOp}

/-- The registers that an instruction finds, the program counter behind it. -/
def found (m : Machine σ) (i : Instruction) : RegisterFile :=
  m.registers.set .pc (m.pc + UInt16.ofNat i.size)

theorem get_found (m : Machine σ) (word data : Word) (i : Instruction) {r : Register}
    (hir : r ≠ .ir) (hdr : r ≠ .dr) :
    (m.poised word data i).registers.get r = (m.found i).get r := by
  by_cases hpc : r = .pc
  · rw [hpc]
    exact (RegisterFile.get_set_self _ _ _).trans (RegisterFile.get_set_self _ _ _).symm
  · exact (Action.get_poised m word data i hpc hir hdr).trans
      (RegisterFile.get_set_of_ne _ _ (Ne.symm hpc)).symm

/-- A cycle that executes an operation writes what the operation makes of its operands. The test
flag tells whether that is zero if it was written to a register. If it was written to a stack, the
flag is the one from before, which tells so by chance. -/
theorem testFlag_of_cycle (S : System σ) (hop : i.operation? = some op)
    (h : m.cycle S = (.ok i, n)) :
    ∃ lhs rhs w, i.operands? (m.found i) m.memory = some (lhs, rhs) ∧
      op.apply lhs rhs = some w ∧
      i.result? n.registers n.memory = some w ∧
      (∀ stack, i.stack? = some stack →
        n.registers.get stack = (m.found i).get stack + op.popped) ∧
      n.registers.testFlag = (if i.stack?.isSome then m.registers.testFlag else w != 0) ∧
      (n.registers.testFlag = (w != 0) ↔
        (i.stack?.isSome = true → m.registers.testFlag = (w != 0))) := by
  obtain ⟨word, data, k, -, hd, hx, rfl⟩ :=
    Action.fetchAndExecute_of_ok S (Action.fetchAndExecute_of_cycle S h)
  have hi := Instruction.canonical_of_decode hd
  obtain ⟨w, ⟨⟨lhs, rhs, hoperands, hw⟩, hresult, hpointer⟩, hflag⟩ :=
    Action.execute_operation S hi hop hx
  have hreadable (r : Register) (hr : r.isReadable = true) :
      (m.poised word data i).registers.get r = (m.found i).get r := by
    apply get_found
    · rintro rfl
      cases hr
    · rintro rfl
      cases hr
  have hbefore : (m.poised word data i).registers.testFlag = m.registers.testFlag :=
    RegisterFile.testFlag_congr
      (Action.get_poised m word data i (by decide) (by decide) (by decide))
  rw [hbefore] at hflag
  rw [Instruction.operands?_congr hi _ hreadable] at hoperands
  refine ⟨lhs, rhs, w, hoperands, hw, hresult, fun stack hs => ?_, hflag, ?_⟩
  · rw [← hreadable stack]
    · exact hpointer stack hs
    · cases i <;> cases hs
      exact hi
  · show k.registers.testFlag = _ ↔ _
    rw [hflag]
    cases i.stack?.isSome with
    | true => simp only [↓reduceIte, forall_const]
    | false => simp only [Bool.false_eq_true, ↓reduceIte, false_implies]

/-- The number 5 on top of the stack, which is to be negated. -/
def negating : Machine Unit :=
  { Machine.new () with
    memory := (Memory.zero.place 0 [0x27, 0xED]).place 4094 [0x00, 0x05]
    registers := initialRegisters.set .sp 4094 }

/-- The result is not zero, and the flag of the new machine stays clear. -/
theorem testFlag_of_cycle_negating :
    ∃ n, negating.cycle silent = (.ok (.sop .neg .sp), n) ∧
      (Instruction.sop .neg .sp).result? n.registers n.memory = some 0xFFFB ∧
      n.registers.testFlag = false := by
  have hcycle : (negating.cycle silent).1 = .ok (.sop .neg .sp) := by decide +kernel
  have hfound : (Instruction.sop .neg .sp).operands?
      (negating.found (.sop .neg .sp)) negating.memory = some (5, 5) := by decide +kernel
  rcases hn : negating.cycle silent with ⟨r, n⟩
  rw [hn] at hcycle
  obtain rfl : r = _ := hcycle
  obtain ⟨lhs, rhs, w, hoperands, hw, hresult, -, hflag, -⟩ := testFlag_of_cycle silent rfl hn
  rw [hfound] at hoperands
  cases hoperands
  cases hw
  exact ⟨n, rfl, hresult, hflag⟩

end Machine
end Minicomputer
