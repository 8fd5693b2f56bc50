import Minicomputer.Proofs.Machine.Report

/-!
# What a fault leaves undone

An instruction that faults has changed nothing by then, with few exceptions: it reads before it
writes, and what it writes after its first change is in places that it has read before, where a
write cannot fail. An instruction that pushes has moved the stack pointer, and one that copies a
range of bytes may have copied some of them.
-/

set_option autoImplicit false

namespace Minicomputer

namespace Memory

/-- Both bytes of the word are there. -/
def HasWord (a : Int) : Prop := ∃ i : Nat, a = i ∧ i + 1 < 4096

theorem hasWord_of_readWord {m : Memory} {a : Int} {w : Word} (h : m.readWord a = .ok w) :
    HasWord a := by
  obtain ⟨high, hhigh, h⟩ := exists_of_bind_eq_ok h
  obtain ⟨low, hlow, -⟩ := exists_of_bind_eq_ok h
  obtain ⟨i, hi, -⟩ := exists_of_bind_eq_ok hhigh
  obtain ⟨j, hj, -⟩ := exists_of_bind_eq_ok hlow
  have hi := index_eq_ok_iff.mp hi
  have hj := index_eq_ok_iff.mp hj
  exact ⟨i.val, hi, by omega⟩

/-- A word that fits is stored, and is read back; no other byte is written. -/
theorem exists_writeWord (m : Memory) {a : Nat} (h : a + 1 < 4096) (w : Word) :
    ∃ n, m.writeWord a w = .ok n ∧ n.readWord a = .ok w ∧
      ∀ k : Int, k < a ∨ a + 2 ≤ k → n.readByte k = m.readByte k := by
  have hlow : index ((a : Int) + 1) = .ok ⟨a + 1, h⟩ := index_of_fin ⟨a + 1, h⟩
  obtain ⟨half, hhalf⟩ : ∃ half, m.writeByte a w.high = .ok half :=
    ⟨_, writeByte_eq_ok_iff.mpr ⟨⟨a, by omega⟩, rfl, rfl⟩⟩
  obtain ⟨n, hn⟩ : ∃ n, half.writeByte ((a : Int) + 1) w.low = .ok n :=
    ⟨_, writeByte_eq_ok_iff.mpr ⟨⟨a + 1, h⟩, rfl, rfl⟩⟩
  have hread (k : Int) : n.readByte k = if k = a + 1 then .ok w.low
      else if k = a then .ok w.high else m.readByte k := by
    rw [readByte_of_writeByte hn, readByte_of_writeByte hhalf]
  refine ⟨n, ?_, ?_, fun k hk => ?_⟩
  · unfold writeWord
    rw [hlow, hhalf]
    exact hn
  · unfold readWord
    rw [hread, hread, if_neg (by omega), if_pos rfl, if_pos rfl]
    exact congrArg Except.ok (Word.ofBytes_high_low w)
  · rw [hread, if_neg (by omega), if_neg (by omega)]

end Memory

namespace Action

variable {σ α β : Type} {m n : Machine σ} {e : Fault}

/-! ### Elementary actions -/

theorem run_loadWord_of_ok {a : Int} {w : Word} (h : m.memory.readWord a = .ok w) :
    (loadWord a).run m = (.ok w, m) := by
  rw [run_loadWord, h]
  rfl

theorem run_storeWord (m : Machine σ) (a : Int) (w : Word) :
    (storeWord a w).run m = match m.memory.writeWord a w with
      | .ok memory => (.ok (), { m with memory }.announce
          [.memoryUpdated (Word.ofInt a) w.high, .memoryUpdated (Word.ofInt (a + 1)) w.low])
      | .error e => (.error (.memory e), m) := by
  change (ofMemory (m.writeWord a w) >>= fun m => set m : Action σ Unit).run m = _
  unfold Machine.writeWord
  cases m.memory.writeWord a w with
  | ok memory => rfl
  | error e => rfl

theorem run_storeByte (m : Machine σ) (a : Int) (b : Byte) :
    (storeByte a b).run m = match m.memory.writeByte a b with
      | .ok memory => (.ok (), { m with memory }.announce [.memoryUpdated (Word.ofInt a) b])
      | .error e => (.error (.memory e), m) := by
  change (ofMemory (m.writeByte a b) >>= fun m => set m : Action σ Unit).run m = _
  unfold Machine.writeByte
  cases m.memory.writeByte a b with
  | ok memory => rfl
  | error e => rfl

theorem run_storeWord_of_lt (m : Machine σ) {a : Nat} (h : a + 1 < 4096) (w : Word) :
    ∃ n, (storeWord a w).run m = (.ok (), n) ∧ n.registers = m.registers ∧
      n.memory.readWord a = .ok w ∧
        ∀ k : Int, k < a ∨ a + 2 ≤ k → n.memory.readByte k = m.memory.readByte k := by
  obtain ⟨memory, hwrite, hread, hframe⟩ := m.memory.exists_writeWord h w
  have hrun := run_storeWord m a w
  rw [hwrite] at hrun
  exact ⟨_, hrun, rfl, hread, hframe⟩

theorem run_bind_eq_error {x : Action σ α} {f : α → Action σ β}
    (h : (x >>= f).run m = (.error e, n)) :
    x.run m = (.error e, n) ∨ ∃ a k, x.run m = (.ok a, k) ∧ (f a).run k = (.error e, n) := by
  rcases hx : x.run m with ⟨e' | a, k⟩
  · rw [run_bind_of_error hx] at h
    cases h
    exact .inl rfl
  · rw [run_bind_of_ok hx] at h
    exact .inr ⟨a, k, rfl, h⟩

/-! ### Actions that change nothing, never fail, or do one of both -/

/-- The action only looks at the machine. -/
def Looks (x : Action σ α) : Prop := ∀ m, (x.run m).2 = m

def Succeeds (x : Action σ α) : Prop := ∀ m, ∃ a n, x.run m = (.ok a, n)

/-- Where the action fails it has changed nothing. -/
def Atomic (x : Action σ α) : Prop := ∀ ⦃m e n⦄, x.run m = (.error e, n) → n = m

variable {x : Action σ α} {f : α → Action σ β}

theorem Looks.atomic (h : Looks x) : Atomic x := by
  intro m e n hr
  have hm := h m
  rw [hr] at hm
  exact hm

theorem Succeeds.atomic (h : Succeeds x) : Atomic x := by
  intro m e n hr
  obtain ⟨a, k, hk⟩ := h m
  rw [hk] at hr
  cases hr

theorem Succeeds.bind (hx : Succeeds x) (hf : ∀ a, Succeeds (f a)) : Succeeds (x >>= f) := by
  intro m
  obtain ⟨a, k, hk⟩ := hx m
  rw [run_bind_of_ok hk]
  exact hf a k

theorem Looks.bind (hx : Looks x) (hf : ∀ a, Looks (f a)) : Looks (x >>= f) := by
  intro m
  have hm := hx m
  rcases hr : x.run m with ⟨e | a, k⟩ <;> rw [hr] at hm <;> dsimp only at hm <;> subst hm
  · rw [run_bind_of_error hr]
  · rw [run_bind_of_ok hr]
    exact hf a k

/-- The change comes last. -/
theorem Looks.before (hx : Looks x) (hf : ∀ a, Atomic (f a)) : Atomic (x >>= f) := by
  intro m e n hr
  obtain hr | ⟨a, k, hk, hr⟩ := run_bind_eq_error hr
  · exact hx.atomic hr
  · have hm : k = m := by
      have hm := hx m
      rw [hk] at hm
      exact hm
    rw [hm] at hr
    exact hf a hr

/-- The failure comes first. -/
theorem Atomic.bind (hx : Atomic x) (hf : ∀ a, Succeeds (f a)) : Atomic (x >>= f) := by
  intro m e n hr
  obtain hr | ⟨a, k, -, hr⟩ := run_bind_eq_error hr
  · exact hx hr
  · obtain ⟨b, l, hl⟩ := hf a k
    rw [hl] at hr
    cases hr

theorem looks_register (r : Register) : Looks (register r : Action σ Word) := fun _ => rfl

theorem looks_distance (off : Option Register) : Looks (distance off : Action σ Word) := by
  cases off with
  | none => exact fun _ => rfl
  | some r => exact looks_register r

theorem looks_loadByte (a : Int) : Looks (loadByte a : Action σ Byte) := fun m =>
  congrArg Prod.snd (run_ofMemory (m.memory.readByte a) m)

theorem looks_loadWord (a : Int) : Looks (loadWord a : Action σ Word) := fun m =>
  congrArg Prod.snd (run_loadWord a m)

theorem looks_arith (op : ArithOp) (lhs rhs : Word) : Looks (arith op lhs rhs : Action σ Word) := by
  unfold arith
  cases op.apply lhs rhs with
  | some w => exact fun _ => rfl
  | none => exact fun _ => rfl

theorem succeeds_register (r : Register) : Succeeds (register r : Action σ Word) :=
  fun _ => ⟨_, _, rfl⟩

theorem succeeds_setRegister (r : Register) (w : Word) :
    Succeeds (setRegister r w : Action σ Unit) :=
  fun _ => ⟨_, _, rfl⟩

theorem succeeds_setTestFlag (value : Bool) : Succeeds (setTestFlag value : Action σ Unit) :=
  fun _ => ⟨_, _, rfl⟩

theorem succeeds_jump (kind : JumpKind) (target : Word) :
    Succeeds (jump kind target : Action σ Unit) := by
  intro m
  have hg : (get : Action σ (Machine σ)).run m = (.ok m, m) := rfl
  cases kind with
  | j => exact ⟨_, _, rfl⟩
  | jz =>
    rw [jump, run_bind_of_ok hg]
    split <;> exact ⟨_, _, rfl⟩
  | jnz =>
    rw [jump, run_bind_of_ok hg]
    split <;> exact ⟨_, _, rfl⟩
  | jal => exact ⟨_, _, rfl⟩

theorem succeeds_storeWord {a : Int} (h : Memory.HasWord a) (w : Word) :
    Succeeds (storeWord a w : Action σ Unit) := by
  intro m
  obtain ⟨i, rfl, hi⟩ := h
  obtain ⟨n, hn, -⟩ := run_storeWord_of_lt m hi w
  exact ⟨(), n, hn⟩

theorem atomic_storeWord (a : Int) (w : Word) : Atomic (storeWord a w : Action σ Unit) := by
  intro m e n hr
  rw [run_storeWord] at hr
  split at hr <;> cases hr
  rfl

theorem atomic_storeByte (a : Int) (b : Byte) : Atomic (storeByte a b : Action σ Unit) := by
  intro m e n hr
  rw [run_storeByte] at hr
  split at hr <;> cases hr
  rfl

/-- Behind a word that was read there is no failure in writing to its place. -/
theorem atomic_loadWord {a : Int} {f : Word → Action σ β}
    (hf : Memory.HasWord a → ∀ w, Atomic (f w)) : Atomic (loadWord a >>= f) := by
  intro m e n hr
  obtain hr | ⟨w, k, hk, hr⟩ := run_bind_eq_error hr
  · exact (looks_loadWord a).atomic hr
  · rw [run_loadWord] at hk
    cases hw : m.memory.readWord a with
    | error e =>
      rw [hw] at hk
      cases hk
    | ok v =>
      rw [hw] at hk
      cases hk
      exact hf (Memory.hasWord_of_readWord hw) w hr

/-! ### Actions that write memory only -/

/-- The action touches neither the registers nor the input. -/
def Spares (x : Action σ α) : Prop :=
  ∀ m, (x.run m).2.registers = m.registers ∧ (x.run m).2.console.input = m.console.input

theorem Looks.spares (h : Looks x) : Spares x := by
  intro m
  rw [h m]
  exact ⟨rfl, rfl⟩

theorem Spares.bind (hx : Spares x) (hf : ∀ a, Spares (f a)) : Spares (x >>= f) := by
  intro m
  obtain ⟨hregisters, hinput⟩ := hx m
  rcases hr : x.run m with ⟨e | a, k⟩ <;> rw [hr] at hregisters hinput
  · rw [run_bind_of_error hr]
    exact ⟨hregisters, hinput⟩
  · rw [run_bind_of_ok hr]
    obtain ⟨hregisters', hinput'⟩ := hf a k
    exact ⟨hregisters'.trans hregisters, hinput'.trans hinput⟩

theorem spares_storeByte (a : Int) (b : Byte) : Spares (storeByte a b : Action σ Unit) := by
  intro m
  rw [run_storeByte]
  split <;> exact ⟨rfl, rfl⟩

theorem spares_copy (source target : Nat → Int) (i n : Nat) :
    Spares (copy source target i n : Action σ Unit) := by
  induction n generalizing i with
  | zero => exact fun _ => ⟨rfl, rfl⟩
  | succ n ih =>
    exact (looks_loadByte _).spares.bind fun b => (spares_storeByte _ b).bind fun _ => ih _

/-! ### Instructions -/

theorem atomic_arithTo (op : ArithOp) (target : Register) (rhs : Word) :
    Atomic (arithTo op target rhs : Action σ Unit) :=
  (looks_register target).before fun lhs => (looks_arith op lhs rhs).before fun _ =>
    ((succeeds_setRegister target _).bind fun _ => succeeds_setTestFlag _).atomic

theorem atomic_loadWordTo (reg : Register) (a : Int) :
    Atomic (loadWordTo reg a : Action σ Unit) :=
  (looks_loadWord a).before fun w => (succeeds_setRegister reg w).atomic

theorem atomic_loadByteTo (reg : Register) (a : Int) :
    Atomic (loadByteTo reg a : Action σ Unit) :=
  (looks_loadByte a).before fun _ => (succeeds_setRegister reg _).atomic

theorem atomic_storeWordOf (reg : Register) (a : Int) :
    Atomic (storeWordOf reg a : Action σ Unit) :=
  (looks_register reg).before fun w => atomic_storeWord a w

theorem atomic_storeByteOf (reg : Register) (a : Int) :
    Atomic (storeByteOf reg a : Action σ Unit) :=
  (looks_register reg).before fun _ => atomic_storeByte a _

theorem atomic_access (op : AccessOp) (reg : Register) (address : Word) (a : Int) :
    Atomic (access op reg address a : Action σ Unit) := by
  cases op with
  | lw => exact atomic_loadWordTo reg a
  | lb => exact atomic_loadByteTo reg a
  | sw => exact atomic_storeWordOf reg a
  | sb => exact atomic_storeByteOf reg a
  | li => exact (succeeds_setRegister reg address).atomic

theorem atomic_indexed (op : IndexedOp) (reg : Register) (a : Int) :
    Atomic (indexed op reg a : Action σ Unit) := by
  cases op with
  | lwr => exact atomic_loadWordTo reg a
  | lbr => exact atomic_loadByteTo reg a
  | swr => exact atomic_storeWordOf reg a
  | sbr => exact atomic_storeByteOf reg a

theorem atomic_pop (target stack : Register) (S : System σ) :
    Atomic (execute S (.pop target stack)) :=
  (looks_register stack).before fun _ => (looks_loadWord _).before fun w =>
    ((succeeds_setRegister target w).bind fun _ => (succeeds_register stack).bind fun _ =>
      succeeds_setRegister stack _).atomic

/-- The words that are written are those that were read. -/
theorem atomic_rearrange {op : StackOp} (hdup : op ≠ .dup) (hpick : op ≠ .pick)
    (stack : Register) : Atomic (rearrange op stack : Action σ Unit) := by
  apply (looks_register stack).before
  intro sp
  cases op with
  | dup => contradiction
  | swap =>
    exact atomic_loadWord fun htop top => atomic_loadWord fun hnext next =>
      ((succeeds_storeWord htop next).bind fun _ => succeeds_storeWord hnext top).atomic
  | drop => exact (succeeds_setRegister stack _).atomic
  | pick => contradiction
  | rot =>
    exact atomic_loadWord fun htop top => atomic_loadWord fun hnext next =>
      atomic_loadWord fun hthird third =>
        ((succeeds_storeWord htop third).bind fun _ => (succeeds_storeWord hnext top).bind fun _ =>
          succeeds_storeWord hthird next).atomic

/-- The pointer moves before the result is written, to a place that was read. -/
theorem atomic_stackArith (op : ArithOp) (stack : Register) :
    Atomic (stackArith op stack : Action σ Unit) := by
  apply (looks_register stack).before
  intro sp
  apply (looks_loadWord _).before
  intro top
  split
  · exact (looks_arith op top top).before fun _ => atomic_storeWord _ _
  · apply atomic_loadWord
    intro hnext next
    apply (looks_arith op next top).before
    intro result
    have hsame : offset (sp + 2) 0 = offset sp 2 := by
      unfold offset
      rw [UInt16.add_zero]
    rw [hsame]
    exact ((succeeds_setRegister stack _).bind fun _ => succeeds_storeWord hnext result).atomic

end Action

/-- The stack on which an instruction pushes a word, and how far behind the top the word is found
if it is one of that stack. -/
def Instruction.pushing? : Instruction → Option (Register × Option Word)
  | .push _ stack | .pushImm _ stack => some (stack, none)
  | .rearrange .dup stack => some (stack, some 0)
  | .rearrange .pick stack => some (stack, some 2)
  | _ => none

/-- The word that is to be pushed is there, if it is one of the stack. -/
def Memory.Offers (m : Memory) (top : Word) : Option Word → Prop
  | none => True
  | some d => ∃ w, m.readWord (Action.offset top d) = .ok w

namespace Action

variable {σ : Type} (S : System σ) {m n : Machine σ} {e : Fault}

/-- An instruction that faults has changed nothing, unless it pushes, copies, or is a call. -/
theorem atomic_execute {i : Instruction} (hpush : i.pushing? = none)
    (hcopy : ∀ source target size, i ≠ .mcp source target size) (hcall : ∀ c, i ≠ .sys c) :
    Atomic (execute S i) := by
  cases i with
  | sys c => exact absurd rfl (hcall c)
  | mv target source =>
    exact (looks_register source).before fun w => (succeeds_setRegister target w).atomic
  | inc target amount | dec target amount =>
    exact (looks_register target).before fun w => (succeeds_setRegister target _).atomic
  | seti target value => exact (succeeds_setRegister target _).atomic
  | mcp source target size => exact absurd rfl (hcopy source target size)
  | debug index => exact Succeeds.atomic fun m => ⟨_, _, rfl⟩
  | nop => exact Succeeds.atomic fun m => ⟨_, _, rfl⟩
  | arith op target source => exact (looks_register source).before fun w => atomic_arithTo op target w
  | arithImm op target value => exact atomic_arithTo op target value
  | push source stack => cases hpush
  | pop target stack => exact atomic_pop target stack S
  | rearrange op stack =>
    have hdup : op ≠ .dup := by
      rintro rfl
      cases hpush
    have hpick : op ≠ .pick := by
      rintro rfl
      cases hpush
    exact atomic_rearrange hdup hpick stack
  | sop op stack => exact atomic_stackArith op stack
  | pushImm value stack => cases hpush
  | test op lhs rhs =>
    exact (looks_register lhs).before fun _ => (looks_register rhs).before fun _ =>
      (succeeds_setTestFlag _).atomic
  | testImm op lhs value => exact (looks_register lhs).before fun _ => (succeeds_setTestFlag _).atomic
  | access op reg off address =>
    exact (looks_distance off).before fun _ => atomic_access op reg address _
  | indexed op reg base off =>
    exact (looks_register base).before fun _ => (looks_distance off).before fun _ =>
      atomic_indexed op reg _
  | jumpReg reg => exact (looks_register reg).before fun w => (succeeds_setRegister .pc w).atomic
  | jump kind target => exact (succeeds_jump kind target).atomic

theorem spares_execute_mcp (source target : Register) (size : Word) :
    Spares (execute S (.mcp source target size)) :=
  (looks_register source).spares.bind fun _ => (looks_register target).spares.bind fun _ =>
    spares_copy _ _ 0 _

theorem run_push_of_error {stack : Register} {w : Word} (h : (push stack w).run m = (.error e, n)) :
    n = m.setRegister stack (m.registers.get stack - 2) := by
  have hreg : (register stack).run m = (.ok (m.registers.get stack), m) := rfl
  have hset : (setRegister stack (m.registers.get stack - 2)).run m =
      (.ok (), m.setRegister stack (m.registers.get stack - 2)) := rfl
  rw [push, run_bind_of_ok hreg] at h
  dsimp only at h
  rw [run_bind_of_ok hset] at h
  exact atomic_storeWord _ _ h

/-- A word of the stack is pushed on it again. -/
theorem run_pushAgain_of_error {stack : Register} {d : Word}
    (h : (register stack >>= fun sp => loadWord (offset sp d) >>= push stack).run m =
      (.error e, n)) :
    m.memory.Offers (m.registers.get stack) (some d) ∧
        n = m.setRegister stack (m.registers.get stack - 2) ∨
      ¬ m.memory.Offers (m.registers.get stack) (some d) ∧ n = m := by
  have hreg : (register stack).run m = (.ok (m.registers.get stack), m) := rfl
  have hload := run_loadWord (offset (m.registers.get stack) d) m
  rw [run_bind_of_ok hreg] at h
  cases hw : m.memory.readWord (offset (m.registers.get stack) d) with
  | error e' =>
    rw [hw] at hload
    rw [run_bind_of_error hload] at h
    cases h
    refine .inr ⟨?_, rfl⟩
    rintro ⟨w, hw'⟩
    rw [hw] at hw'
    cases hw'
  | ok w =>
    rw [hw] at hload
    rw [run_bind_of_ok hload] at h
    exact .inl ⟨⟨w, hw⟩, run_push_of_error h⟩

/-- An instruction that pushes has moved the pointer when it faults, if it had a word to push. -/
theorem run_execute_of_pushing {i : Instruction} {stack : Register} {d : Option Word}
    (hi : i.pushing? = some (stack, d)) (h : (execute S i).run m = (.error e, n)) :
    m.memory.Offers (m.registers.get stack) d ∧
        n = m.setRegister stack (m.registers.get stack - 2) ∨
      ¬ m.memory.Offers (m.registers.get stack) d ∧ n = m := by
  unfold Instruction.pushing? at hi
  split at hi <;> cases hi
  · next source =>
    have hreg : (register source).run m = (.ok (m.registers.get source), m) := rfl
    rw [execute, run_bind_of_ok hreg] at h
    exact .inl ⟨trivial, run_push_of_error h⟩
  · exact .inl ⟨trivial, run_push_of_error h⟩
  · exact run_pushAgain_of_error h
  · exact run_pushAgain_of_error h

/-! ### Cycles -/

/-- A cycle that faults has found no instruction, or faults in executing one. -/
theorem fetchAndExecute_of_error (h : (fetchAndExecute S).run m = (.error e, n)) :
    ((∀ i, ¬ m.Upcoming i) ∧
        (n = m ∨ (∃ word, n = m.setRegister .ir word) ∨ ∃ word data, n = m.fetched word data)) ∨
      ∃ word data i, m.Presents word data ∧ Instruction.decode word data = some i ∧
        (execute S i).run (m.poised word data i) = (.error e, n) := by
  cases m.finds with
  | instruction word data i hp hd =>
    rw [run_fetchAndExecute_of_some S hp hd] at h
    refine .inr ⟨word, data, i, hp, hd, ?_⟩
    rcases hx : (execute S i).run (m.poised word data i) with ⟨e' | _, k⟩ <;> rw [hx] at h <;>
      cases h
    rfl
  | undecodable word data hp hd =>
    rw [run_fetchAndExecute_of_none S hp hd] at h
    cases h
    refine .inl ⟨?_, .inr (.inr ⟨word, data, rfl⟩)⟩
    rintro i ⟨word', data', hp', hd'⟩
    obtain ⟨rfl, rfl⟩ := Machine.presents_unique hp hp'
    rw [hd] at hd'
    cases hd'
  | nothing hp =>
    obtain ⟨e', k, hk, hn⟩ := run_fetch_of_not_presents hp
    rw [run_fetchAndExecute_of_error S hk] at h
    cases h
    refine .inl ⟨fun i hi => ?_, ?_⟩
    · obtain ⟨word, data, hi, -⟩ := hi
      exact hp word data hi
    · obtain hn | hn := hn
      · exact .inl hn
      · exact .inr (.inl hn)

end Action
end Minicomputer
