import Minicomputer.Proofs.Machine.Failure

/-!
# The registers that an instruction writes

An instruction names the registers that it writes besides the program counter. All others keep
their values, also where the instruction ends in a fault. It names none of the registers that are
the machine's own, apart from the flags.
-/

set_option autoImplicit false

namespace Minicomputer

/-- Whether the operation moves the stack pointer. -/
def StackOp.isMoving : StackOp → Bool
  | dup | drop | pick => true
  | swap | rot => false

namespace Instruction

/-- The registers that an instruction may write, besides the program counter. -/
def written : Instruction → List Register
  | sys _ => [.rv]
  | mv target _ | inc target _ | dec target _ | seti target _ => [target]
  | arith _ target _ | arithImm _ target _ => [target, .flags]
  | push _ stack | pushImm _ stack => [stack]
  | pop target stack => [target, stack]
  | rearrange op stack => if op.isMoving then [stack] else []
  | sop _ stack => [stack, .flags]
  | test .. | testImm .. => [.flags]
  | access op reg _ _ => if op.isStore then [] else [reg]
  | indexed op reg _ _ => if op.isStore then [] else [reg]
  | jump .jal _ => [.ra]
  | mcp .. | debug _ | nop | jumpReg _ | jump .. => []

/-- An instruction writes registers that it can name, and the flags. -/
theorem readable_of_written {i : Instruction} (hc : i.Canonical) {r : Register}
    (h : r ∈ i.written) : r.isReadable = true ∨ r = .flags := by
  cases i with
  | sys | test | testImm => simp_all [written, Register.isReadable, Register.index]
  | mcp | debug | nop | jumpReg => cases h
  | jump kind => cases kind <;> simp_all [written, Register.isReadable, Register.index]
  | _ =>
    simp only [written, Canonical] at h hc
    aesop

end Instruction

namespace Action

variable {σ α β γ : Type}

/-! ### What an action leaves alone -/

/-- The action does not change what is seen of the machine, also where it fails. -/
def Leaves (view : Machine σ → γ) (x : Action σ α) : Prop := ∀ m, view (x.run m).2 = view m

section

variable {view : Machine σ → γ} {x : Action σ α} {f : α → Action σ β}

theorem Looks.leaves (h : Looks x) : Leaves view x := fun m => congrArg view (h m)

theorem Leaves.map {δ : Type} (h : Leaves view x) (g : γ → δ) : Leaves (fun m => g (view m)) x :=
  fun m => congrArg g (h m)

theorem Leaves.bind (hx : Leaves view x) (hf : ∀ a, Leaves view (f a)) : Leaves view (x >>= f) := by
  intro m
  have hm := hx m
  rcases hr : x.run m with ⟨e | a, k⟩ <;> rw [hr] at hm
  · rw [run_bind_of_error hr]
    exact hm
  · rw [run_bind_of_ok hr]
    exact (hf a k).trans hm

end

section

variable {r : Register}

theorem Spares.leaves_of {x : Action σ α} (h : Spares x) (v : RegisterFile → γ) :
    Leaves (fun m => v m.registers) x :=
  fun m => congrArg v (h m).1

theorem Spares.leaves {x : Action σ α} (h : Spares x) : Leaves (·.registers.get r) x :=
  h.leaves_of (·.get r)

theorem leaves_setRegister {s : Register} (h : r ≠ s) (w : Word) :
    Leaves (·.registers.get r) (setRegister s w : Action σ Unit) :=
  fun _ => RegisterFile.get_set_of_ne _ _ h.symm

theorem leaves_setTestFlag (h : r ≠ .flags) (value : Bool) :
    Leaves (·.registers.get r) (setTestFlag value : Action σ Unit) :=
  fun _ => RegisterFile.get_set_of_ne _ _ h.symm

theorem spares_storeWord (a : Int) (w : Word) : Spares (storeWord a w : Action σ Unit) := by
  intro m
  rw [run_storeWord]
  split <;> exact ⟨rfl, rfl⟩

theorem leaves_push {stack : Register} (h : r ≠ stack) (w : Word) :
    Leaves (·.registers.get r) (push stack w : Action σ Unit) :=
  (looks_register stack).leaves.bind fun _ => (leaves_setRegister h _).bind fun _ =>
    (spares_storeWord _ w).leaves

theorem leaves_rearrange (op : StackOp) {stack : Register} (h : op.isMoving = true → r ≠ stack) :
    Leaves (·.registers.get r) (rearrange op stack : Action σ Unit) := by
  apply (looks_register stack).leaves.bind
  intro sp
  cases op with
  | dup => exact (looks_loadWord _).leaves.bind fun w => leaves_push (h rfl) w
  | swap =>
    exact (looks_loadWord _).leaves.bind fun top => (looks_loadWord _).leaves.bind fun next =>
      (spares_storeWord _ next).leaves.bind fun _ => (spares_storeWord _ top).leaves
  | drop => exact leaves_setRegister (h rfl) _
  | pick => exact (looks_loadWord _).leaves.bind fun w => leaves_push (h rfl) w
  | rot =>
    exact (looks_loadWord _).leaves.bind fun top => (looks_loadWord _).leaves.bind fun next =>
      (looks_loadWord _).leaves.bind fun third => (spares_storeWord _ third).leaves.bind fun _ =>
        (spares_storeWord _ top).leaves.bind fun _ => (spares_storeWord _ next).leaves

theorem leaves_stackArith {stack : Register} (h : r ≠ stack) (op : ArithOp) :
    Leaves (·.registers.get r) (stackArith op stack : Action σ Unit) := by
  apply (looks_register stack).leaves.bind
  intro sp
  apply (looks_loadWord _).leaves.bind
  intro top
  split
  · exact (looks_arith op top top).leaves.bind fun w => (spares_storeWord _ w).leaves
  · exact (looks_loadWord _).leaves.bind fun next => (looks_arith op next top).leaves.bind fun w =>
      (leaves_setRegister h _).bind fun _ => (spares_storeWord _ w).leaves

theorem leaves_arithTo {target : Register} (ht : r ≠ target) (hf : r ≠ .flags) (op : ArithOp)
    (rhs : Word) : Leaves (·.registers.get r) (arithTo op target rhs : Action σ Unit) :=
  (looks_register target).leaves.bind fun lhs => (looks_arith op lhs rhs).leaves.bind fun w =>
    (leaves_setRegister ht w).bind fun _ => leaves_setTestFlag hf _

theorem leaves_loadWordTo {reg : Register} (h : r ≠ reg) (a : Int) :
    Leaves (·.registers.get r) (loadWordTo reg a : Action σ Unit) :=
  (looks_loadWord a).leaves.bind fun w => leaves_setRegister h w

theorem leaves_loadByteTo {reg : Register} (h : r ≠ reg) (a : Int) :
    Leaves (·.registers.get r) (loadByteTo reg a : Action σ Unit) :=
  (looks_loadByte a).leaves.bind fun _ => leaves_setRegister h _

theorem spares_storeWordOf (reg : Register) (a : Int) :
    Spares (storeWordOf reg a : Action σ Unit) :=
  (looks_register reg).spares.bind fun w => spares_storeWord a w

theorem spares_storeByteOf (reg : Register) (a : Int) :
    Spares (storeByteOf reg a : Action σ Unit) :=
  (looks_register reg).spares.bind fun _ => spares_storeByte a _

theorem spares_access {op : AccessOp} (h : op.isStore = true) (reg : Register) (address : Word)
    (a : Int) : Spares (access op reg address a : Action σ Unit) := by
  cases op with
  | lw | lb | li => cases h
  | sw => exact spares_storeWordOf reg a
  | sb => exact spares_storeByteOf reg a

theorem spares_indexed {op : IndexedOp} (h : op.isStore = true) (reg : Register) (a : Int) :
    Spares (indexed op reg a : Action σ Unit) := by
  cases op with
  | lwr | lbr => cases h
  | swr => exact spares_storeWordOf reg a
  | sbr => exact spares_storeByteOf reg a

theorem leaves_access {op : AccessOp} {reg : Register} (h : op.isStore = false → r ≠ reg)
    (address : Word) (a : Int) :
    Leaves (·.registers.get r) (access op reg address a : Action σ Unit) := by
  cases op with
  | lw => exact leaves_loadWordTo (h rfl) a
  | lb => exact leaves_loadByteTo (h rfl) a
  | sw | sb => exact (spares_access rfl reg address a).leaves
  | li => exact leaves_setRegister (h rfl) address

theorem leaves_indexed {op : IndexedOp} {reg : Register} (h : op.isStore = false → r ≠ reg)
    (a : Int) : Leaves (·.registers.get r) (indexed op reg a : Action σ Unit) := by
  cases op with
  | lwr => exact leaves_loadWordTo (h rfl) a
  | lbr => exact leaves_loadByteTo (h rfl) a
  | swr | sbr => exact (spares_indexed rfl reg a).leaves

theorem leaves_jump {kind : JumpKind} (hpc : r ≠ .pc) (hra : kind = .jal → r ≠ .ra)
    (target : Word) : Leaves (·.registers.get r) (jump kind target : Action σ Unit) := by
  have hget : Looks (get : Action σ (Machine σ)) := fun _ => rfl
  cases kind with
  | j => exact leaves_setRegister hpc target
  | jz =>
    apply hget.leaves.bind
    intro m
    split
    · exact leaves_setRegister hpc target
    · exact fun _ => rfl
  | jnz =>
    apply hget.leaves.bind
    intro m
    split
    · exact leaves_setRegister hpc target
    · exact fun _ => rfl
  | jal =>
    exact (looks_register _).leaves.bind fun w => (leaves_setRegister (hra rfl) w).bind fun _ =>
      leaves_setRegister hpc target

/-- A register that the instruction does not write keeps its value, also where the instruction
fails. -/
theorem leaves_execute (S : System σ) {i : Instruction} (hpc : r ≠ .pc) (hr : r ∉ i.written)
    (hcall : ∀ c, i = .sys c → Leaves (·.registers.get r) (systemCall S c)) :
    Leaves (·.registers.get r) (execute S i) := by
  cases i with
  | sys c => exact hcall c rfl
  | mv target source =>
    exact (looks_register source).leaves.bind fun w =>
      leaves_setRegister (List.ne_of_not_mem_cons hr) w
  | inc target amount | dec target amount =>
    exact (looks_register target).leaves.bind fun w =>
      leaves_setRegister (List.ne_of_not_mem_cons hr) _
  | seti target value => exact leaves_setRegister (List.ne_of_not_mem_cons hr) _
  | mcp source target size => exact (spares_execute_mcp S source target size).leaves
  | debug index => exact fun _ => rfl
  | nop => exact fun _ => rfl
  | arith op target source =>
    obtain ⟨ht, hf⟩ := not_or.mp (mt List.mem_cons.mpr hr)
    exact (looks_register source).leaves.bind fun w =>
      leaves_arithTo ht (List.ne_of_not_mem_cons hf) op w
  | arithImm op target value =>
    obtain ⟨ht, hf⟩ := not_or.mp (mt List.mem_cons.mpr hr)
    exact leaves_arithTo ht (List.ne_of_not_mem_cons hf) op value
  | push source stack =>
    exact (looks_register source).leaves.bind fun w => leaves_push (List.ne_of_not_mem_cons hr) w
  | pop target stack =>
    obtain ⟨ht, hs⟩ := not_or.mp (mt List.mem_cons.mpr hr)
    exact (looks_register stack).leaves.bind fun _ => (looks_loadWord _).leaves.bind fun w =>
      (leaves_setRegister ht w).bind fun _ => (looks_register stack).leaves.bind fun _ =>
        leaves_setRegister (List.ne_of_not_mem_cons hs) _
  | rearrange op stack =>
    apply leaves_rearrange
    intro hop
    rw [Instruction.written, if_pos hop] at hr
    exact List.ne_of_not_mem_cons hr
  | sop op stack => exact leaves_stackArith (List.ne_of_not_mem_cons hr) op
  | pushImm value stack => exact leaves_push (List.ne_of_not_mem_cons hr) value
  | test op lhs rhs =>
    exact (looks_register lhs).leaves.bind fun _ => (looks_register rhs).leaves.bind fun _ =>
      leaves_setTestFlag (List.ne_of_not_mem_cons hr) _
  | testImm op lhs value =>
    exact (looks_register lhs).leaves.bind fun _ =>
      leaves_setTestFlag (List.ne_of_not_mem_cons hr) _
  | access op reg off address =>
    apply (looks_distance off).leaves.bind
    intro d
    apply leaves_access
    intro hop
    rw [Instruction.written, hop] at hr
    exact List.ne_of_not_mem_cons hr
  | indexed op reg base off =>
    apply (looks_register base).leaves.bind
    intro b
    apply (looks_distance off).leaves.bind
    intro d
    apply leaves_indexed
    intro hop
    rw [Instruction.written, hop] at hr
    exact List.ne_of_not_mem_cons hr
  | jumpReg reg =>
    exact (looks_register reg).leaves.bind fun w => leaves_setRegister hpc w
  | jump kind target =>
    apply leaves_jump hpc
    rintro rfl
    exact List.ne_of_not_mem_cons hr

end

end Action
end Minicomputer
