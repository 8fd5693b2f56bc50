import Minicomputer.Proofs.Machine.WriteSet
import Minicomputer.SystemCall

/-!
# The bytes that an instruction writes

The registers that an instruction leaves tell which bytes of memory it has written. A cycle that
executes an instruction has written these bytes, the registers that the instruction names, and
those of the fetch. What is the machine's own is written by no cycle, whatever the program is.
-/

set_option autoImplicit false

namespace Minicomputer

/-- Bytes of memory in a row. -/
structure Region where
  start : Nat
  length : Nat
  deriving DecidableEq, Repr

namespace Region

def empty : Region := ⟨0, 0⟩

def Contains (A : Region) (a : Int) : Prop := A.start ≤ a ∧ a < A.start + A.length

instance (A : Region) (a : Int) : Decidable (A.Contains a) :=
  inferInstanceAs (Decidable (_ ∧ _))

theorem contains_iff {start length : Nat} {a : Int} :
    Contains ⟨start, length⟩ a ↔ start ≤ a ∧ a < start + length := Iff.rfl

end Region

namespace Memory

/-- Two memories hold the same bytes outside a region. -/
def AgreesOutside (A : Region) (m n : Memory) : Prop :=
  ∀ a : Int, ¬ A.Contains a → n.readByte a = m.readByte a

variable {A : Region} {l m n : Memory}

theorem AgreesOutside.trans (h : AgreesOutside A l m) (hm : AgreesOutside A m n) :
    AgreesOutside A l n :=
  fun a ha => (hm a ha).trans (h a ha)

theorem agreesOutside_writeByte {a : Int} {b : Byte} (hn : m.writeByte a b = .ok n)
    (ha : A.Contains a) : AgreesOutside A m n := by
  intro k hk
  rw [readByte_of_writeByte hn, if_neg]
  rintro rfl
  exact hk ha

end Memory

/-- The value of an offset register, zero where there is none. -/
def RegisterFile.distance (f : RegisterFile) : Option Register → Word
  | some r => f.get r
  | none => 0

/-- How many bytes the operation writes at the top that it leaves. -/
def StackOp.width : StackOp → Nat
  | dup | pick => 2
  | swap => 4
  | rot => 6
  | drop => 0

def AccessOp.width : AccessOp → Nat
  | sw => 2
  | sb => 1
  | lw | lb | li => 0

def IndexedOp.width : IndexedOp → Nat
  | swr => 2
  | sbr => 1
  | lwr | lbr => 0

/-- The bytes that an instruction may write, by the registers that it leaves: what is pushed is at
the new top, and all other addresses are in registers that the instruction does not write. -/
def Instruction.region (f : RegisterFile) : Instruction → Region
  | sys call =>
    match SystemCall.ofSelector? call with
    | some .rstr => ⟨(f.get .a0).toNat, (f.get .a1).signed.toNat⟩
    | some .memcpy => ⟨(f.get .a1).toNat, (f.get .a2).signed.toNat⟩
    | _ => .empty
  | mcp _ target size => ⟨(f.get target).toNat, size.toNat⟩
  | push _ stack | pushImm _ stack | sop _ stack => ⟨(f.get stack).toNat, 2⟩
  | rearrange op stack => ⟨(f.get stack).toNat, op.width⟩
  | access op _ off address => ⟨(address + f.distance off).toNat, op.width⟩
  | indexed op _ base off => ⟨(f.get base + f.distance off).toNat, op.width⟩
  | _ => .empty

namespace Action

variable {σ α β : Type} {m n : Machine σ}

theorem run_bind_eq_ok {x : Action σ α} {f : α → Action σ β} {b : β}
    (h : (x >>= f).run m = (.ok b, n)) :
    ∃ a k, x.run m = (.ok a, k) ∧ (f a).run k = (.ok b, n) := by
  rcases hx : x.run m with ⟨e | a, k⟩
  · rw [run_bind_of_error hx] at h
    cases h
  · rw [run_bind_of_ok hx] at h
    exact ⟨a, k, rfl, h⟩

/-- What only looks at the machine has left it as it was. -/
theorem Looks.bind_eq_ok {x : Action σ α} {f : α → Action σ β} {b : β} (hx : Looks x)
    (h : (x >>= f).run m = (.ok b, n)) :
    ∃ a, x.run m = (.ok a, m) ∧ (f a).run m = (.ok b, n) := by
  obtain ⟨a, k, hk, h⟩ := run_bind_eq_ok h
  have hm : k = m := by
    have hm := hx m
    rw [hk] at hm
    exact hm
  rw [hm] at hk h
  exact ⟨a, hk, h⟩

theorem readWord_of_run_loadWord {a : Int} {w : Word} (h : (loadWord a).run m = (.ok w, n)) :
    m.memory.readWord a = .ok w := by
  rw [run_loadWord] at h
  cases hw : m.memory.readWord a <;> rw [hw] at h <;> cases h
  rfl

theorem registers_of_run_storeWord {a : Int} {w : Word} (h : (storeWord a w).run m = (.ok (), n)) :
    n.registers = m.registers := by
  have hr := (spares_storeWord a w m).1
  rw [h] at hr
  exact hr

/-! ### Where an action stores -/

/-- An action that succeeds has changed no byte outside the region, which is told from the registers
that it leaves. -/
def Confines (A : RegisterFile → Region) (x : Action σ α) : Prop :=
  ∀ ⦃m a n⦄, x.run m = (.ok a, n) → Memory.AgreesOutside (A n.registers) m.memory n.memory

/-- The action looks at registers and gives what they say. -/
def Tells (v : RegisterFile → α) (x : Action σ α) : Prop :=
  ∀ m, x.run m = (.ok (v m.registers), m)

theorem tells_register (r : Register) : Tells (·.get r) (register r : Action σ Word) :=
  fun _ => rfl

theorem tells_distance (off : Option Register) :
    Tells (·.distance off) (distance off : Action σ Word) := by
  cases off with
  | none => exact fun _ => rfl
  | some r => exact tells_register r

section

variable {A : RegisterFile → Region} {K : Region} {x : Action σ α} {f : α → Action σ β}

theorem Leaves.confines (h : Leaves Machine.memory x) : Confines A x := by
  intro m a n hr a' _
  have hm : n.memory = m.memory := by
    have hm := h m
    rw [hr] at hm
    exact hm
  rw [hm]

theorem confines_setRegister (r : Register) (w : Word) :
    Confines A (setRegister r w : Action σ Unit) :=
  Leaves.confines fun _ => rfl

theorem confines_setTestFlag (value : Bool) : Confines A (setTestFlag value : Action σ Unit) :=
  Leaves.confines fun _ => rfl

/-- What comes first stores nothing. -/
theorem Leaves.before (hx : Leaves Machine.memory x) (hf : ∀ a, Confines A (f a)) :
    Confines A (x >>= f) := by
  intro m b n h
  obtain ⟨a, k, hk, h⟩ := run_bind_eq_ok h
  have hm : k.memory = m.memory := by
    have hm := hx m
    rw [hk] at hm
    exact hm
  rw [← hm]
  exact hf a h

theorem Confines.map (hx : Confines A x) (g : α → β) :
    Confines A (x >>= fun a => pure (g a)) := by
  intro m b n h
  obtain ⟨a, k, hk, h⟩ := run_bind_eq_ok h
  cases h
  exact hx hk

/-- A region that does not hang on the registers may be written twice. -/
theorem Confines.bind (hx : Confines (fun _ => K) x) (hf : ∀ a, Confines (fun _ => K) (f a)) :
    Confines (fun _ => K) (x >>= f) := by
  intro m b n h
  obtain ⟨a, k, hk, h⟩ := run_bind_eq_ok h
  exact (hx hk).trans (hf a h)

/-- A region that hangs on registers that were read first, and not written then. -/
theorem Tells.confines {v : RegisterFile → α} {A : α → RegisterFile → Region} (hx : Tells v x)
    (hf : ∀ a, Confines (A a) (f a)) (hv : Leaves (fun m => v m.registers) (x >>= f)) :
    Confines (fun g => A (v g) g) (x >>= f) := by
  intro m b n h
  have hm : v n.registers = v m.registers := by
    have hm := hv m
    rw [h] at hm
    exact hm
  rw [run_bind_of_ok (hx m)] at h
  change Memory.AgreesOutside (A (v n.registers) n.registers) m.memory n.memory
  rw [hm]
  exact hf _ h

/-- Behind a word that was read, its place is known to be in memory. -/
theorem confines_loadWord {a : Int} {f : Word → Action σ β}
    (hf : Memory.HasWord a → ∀ w, Confines A (f w)) : Confines A (loadWord a >>= f) := by
  intro m b n h
  obtain ⟨w, hw, h⟩ := (looks_loadWord a).bind_eq_ok h
  exact hf (Memory.hasWord_of_readWord (readWord_of_run_loadWord hw)) w h

theorem memory_of_storeByte {a : Int} {b : Byte} {u : Unit}
    (h : (storeByte a b).run m = (.ok u, n)) :
    m.memory.writeByte a b = .ok n.memory := by
  rw [run_storeByte] at h
  split at h <;> cases h
  next hw => exact hw

theorem confines_storeByte {a : Int} (h : K.Contains a) (b : Byte) :
    Confines (fun _ => K) (storeByte a b : Action σ Unit) :=
  fun _ _ _ hr => Memory.agreesOutside_writeByte (memory_of_storeByte hr) h

theorem confines_storeWord {a : Int} (h : Memory.HasWord a → K.Contains a ∧ K.Contains (a + 1))
    (w : Word) : Confines (fun _ => K) (storeWord a w : Action σ Unit) := by
  intro m u n hr
  rw [run_storeWord] at hr
  split at hr <;> cases hr
  next memory hw =>
    obtain ⟨half, hhigh, hlow⟩ := Memory.writeByte_of_writeWord hw
    obtain ⟨i, hi, -⟩ := Memory.writeByte_eq_ok_iff.mp hhigh
    obtain ⟨j, hj, -⟩ := Memory.writeByte_eq_ok_iff.mp hlow
    obtain ⟨ha, hb⟩ := h ⟨i, hi, by omega⟩
    exact (Memory.agreesOutside_writeByte hhigh ha).trans (Memory.agreesOutside_writeByte hlow hb)

end

/-! ### Words of a stack -/

theorem offset_zero (w : Word) : offset w 0 = w.toNat := by
  rw [offset, UInt16.add_zero]

/-- Addresses shortly behind one that is in memory do not wrap. -/
theorem offset_of_hasWord {w : Word} (h : Memory.HasWord (offset w 0)) {d : Word}
    (hd : d.toNat < 16) : offset w d = (w.toNat + d.toNat : Nat) := by
  obtain ⟨i, hi, hlt⟩ := h
  rw [offset_zero] at hi
  rw [offset, UInt16.toNat_add]
  omega

/-- A word of a region that begins at the top of a stack. -/
theorem confines_storeBehind {sp d : Word} {length : Nat} (h : Memory.HasWord (offset sp 0))
    (hd : d.toNat < 16) (hl : d.toNat + 2 ≤ length) (w : Word) :
    Confines (fun _ => ⟨sp.toNat, length⟩) (storeWord (offset sp d) w : Action σ Unit) := by
  apply confines_storeWord
  rintro -
  rw [offset_of_hasWord h hd, Region.contains_iff, Region.contains_iff]
  omega

/-- The pointer is moved, and a word is written where it points then. -/
theorem confines_storeAt (stack : Register) (sp w : Word) :
    Confines (fun g => ⟨(g.get stack).toNat, 2⟩)
      (setRegister stack sp >>= fun _ => storeWord (offset sp 0) w : Action σ Unit) := by
  intro m u n h
  have hset : (setRegister stack sp).run m = (.ok (), m.setRegister stack sp) := rfl
  rw [run_bind_of_ok hset] at h
  have hs : n.registers.get stack = sp := by
    rw [registers_of_run_storeWord h]
    exact RegisterFile.get_set_self _ _ _
  have hc : Confines (fun _ => ⟨sp.toNat, 2⟩) (storeWord (offset sp 0) w : Action σ Unit) := by
    apply confines_storeWord
    rintro -
    rw [offset_zero, Region.contains_iff, Region.contains_iff]
    omega
  have h := hc h
  rwa [← hs] at h

theorem confines_push (stack : Register) (w : Word) :
    Confines (fun g => ⟨(g.get stack).toNat, 2⟩) (push stack w : Action σ Unit) :=
  (looks_register stack).leaves.before fun _ => confines_storeAt stack _ w

theorem confines_rearrange (op : StackOp) (stack : Register) :
    Confines (fun g => ⟨(g.get stack).toNat, op.width⟩) (rearrange op stack : Action σ Unit) := by
  cases op with
  | dup | pick =>
    exact (looks_register stack).leaves.before fun _ => (looks_loadWord _).leaves.before fun w =>
      confines_push stack w
  | drop =>
    exact (looks_register stack).leaves.before fun _ => confines_setRegister stack _
  | swap =>
    refine (tells_register stack).confines (A := fun sp _ => ⟨sp.toNat, 4⟩) (fun sp => ?_)
      (leaves_rearrange .swap nofun)
    exact confines_loadWord fun htop top => (looks_loadWord _).leaves.before fun next =>
      (confines_storeBehind htop (by decide) (by decide) next).bind fun _ =>
        confines_storeBehind htop (by decide) (by decide) top
  | rot =>
    refine (tells_register stack).confines (A := fun sp _ => ⟨sp.toNat, 6⟩) (fun sp => ?_)
      (leaves_rearrange .rot nofun)
    exact confines_loadWord fun htop top => (looks_loadWord _).leaves.before fun next =>
      (looks_loadWord _).leaves.before fun third =>
        (confines_storeBehind htop (by decide) (by decide) third).bind fun _ =>
          (confines_storeBehind htop (by decide) (by decide) top).bind fun _ =>
            confines_storeBehind htop (by decide) (by decide) next

/-- Two operands leave one, at a new top; one operand is replaced where it is. -/
theorem confines_stackArith (op : ArithOp) (stack : Register) :
    Confines (fun g => ⟨(g.get stack).toNat, 2⟩) (stackArith op stack : Action σ Unit) := by
  cases hu : op.isUnary with
  | false =>
    simp only [stackArith, hu, Bool.false_eq_true, ↓reduceIte]
    exact (looks_register stack).leaves.before fun sp => (looks_loadWord _).leaves.before fun top =>
      (looks_loadWord _).leaves.before fun next => (looks_arith op next top).leaves.before fun w =>
        confines_storeAt stack (sp + 2) w
  | true =>
    simp only [stackArith, hu, ↓reduceIte]
    refine (tells_register stack).confines (A := fun sp _ => ⟨sp.toNat, 2⟩) (fun sp => ?_) ?_
    · exact confines_loadWord fun htop top => (looks_arith op top top).leaves.before fun w =>
        confines_storeBehind htop (by decide) (by decide) w
    · exact (looks_register stack).leaves.bind fun sp => (looks_loadWord _).leaves.bind fun top =>
        (looks_arith op top top).leaves.bind fun w => (spares_storeWord _ w).leaves

/-! ### Stores and copies -/

theorem confines_storeWordOf (reg : Register) (address d : Word) :
    Confines (fun _ => ⟨(address + d).toNat, 2⟩)
      (storeWordOf reg (offset address d) : Action σ Unit) := by
  refine (looks_register reg).leaves.before fun w => confines_storeWord ?_ w
  rintro -
  rw [offset, Region.contains_iff, Region.contains_iff]
  omega

theorem confines_storeByteOf (reg : Register) (address d : Word) :
    Confines (fun _ => ⟨(address + d).toNat, 1⟩)
      (storeByteOf reg (offset address d) : Action σ Unit) := by
  refine (looks_register reg).leaves.before fun _ => confines_storeByte ?_ _
  rw [offset, Region.contains_iff]
  omega

theorem confines_arithTo {A : RegisterFile → Region} (op : ArithOp) (target : Register)
    (rhs : Word) : Confines A (arithTo op target rhs : Action σ Unit) :=
  (looks_register target).leaves.before fun lhs => (looks_arith op lhs rhs).leaves.before fun _ =>
    Leaves.confines fun _ => rfl

theorem confines_jump {A : RegisterFile → Region} (kind : JumpKind) (target : Word) :
    Confines A (jump kind target : Action σ Unit) := by
  have hget : Looks (get : Action σ (Machine σ)) := fun _ => rfl
  cases kind with
  | j | jal => exact Leaves.confines fun _ => rfl
  | jz | jnz =>
    apply hget.leaves.before
    intro m
    split <;> exact Leaves.confines fun _ => rfl

theorem confines_loadWordTo {A : RegisterFile → Region} (reg : Register) (a : Int) :
    Confines A (loadWordTo reg a : Action σ Unit) :=
  (looks_loadWord a).leaves.before fun w => confines_setRegister reg w

theorem confines_loadByteTo {A : RegisterFile → Region} (reg : Register) (a : Int) :
    Confines A (loadByteTo reg a : Action σ Unit) :=
  (looks_loadByte a).leaves.before fun _ => confines_setRegister reg _

theorem confines_accessAt (op : AccessOp) (reg : Register) (address d : Word) :
    Confines (fun _ => ⟨(address + d).toNat, op.width⟩)
      (access op reg address (offset address d) : Action σ Unit) := by
  cases op with
  | lw => exact confines_loadWordTo reg _
  | lb => exact confines_loadByteTo reg _
  | sw => exact confines_storeWordOf reg address d
  | sb => exact confines_storeByteOf reg address d
  | li => exact confines_setRegister reg _

theorem confines_indexedAt (op : IndexedOp) (reg : Register) (b d : Word) :
    Confines (fun _ => ⟨(b + d).toNat, op.width⟩)
      (indexed op reg (offset b d) : Action σ Unit) := by
  cases op with
  | lwr => exact confines_loadWordTo reg _
  | lbr => exact confines_loadByteTo reg _
  | swr => exact confines_storeWordOf reg b d
  | sbr => exact confines_storeByteOf reg b d

/-- A load may write the register that its address is told from, but it stores nothing. -/
theorem leaves_memory_access {op : AccessOp} (h : op.isStore = false) (reg : Register)
    (address : Word) (a : Int) :
    Leaves Machine.memory (access op reg address a : Action σ Unit) := by
  cases op with
  | lw => exact (looks_loadWord a).leaves.bind fun _ _ => rfl
  | lb => exact (looks_loadByte a).leaves.bind fun _ _ => rfl
  | sw | sb => cases h
  | li => exact fun _ => rfl

theorem leaves_memory_indexed {op : IndexedOp} (h : op.isStore = false) (reg : Register)
    (a : Int) : Leaves Machine.memory (indexed op reg a : Action σ Unit) := by
  cases op with
  | lwr => exact (looks_loadWord a).leaves.bind fun _ _ => rfl
  | lbr => exact (looks_loadByte a).leaves.bind fun _ _ => rfl
  | swr | sbr => cases h

theorem confines_access (op : AccessOp) (reg : Register) (off : Option Register) (address : Word) :
    Confines (fun g => ⟨(address + g.distance off).toNat, op.width⟩)
      (distance off >>= fun d => access op reg address (offset address d) : Action σ Unit) := by
  cases hop : op.isStore with
  | false =>
    exact (looks_distance off).leaves.before fun _ =>
      (leaves_memory_access hop reg address _).confines
  | true =>
    have hs : Spares (distance off >>= fun d => access op reg address (offset address d) :
        Action σ Unit) :=
      (looks_distance off).spares.bind fun d => spares_access hop reg address _
    exact (tells_distance off).confines (A := fun d _ => ⟨(address + d).toNat, op.width⟩)
      (fun d => confines_accessAt op reg address d) (hs.leaves_of (·.distance off))

theorem confines_indexed (op : IndexedOp) (reg base : Register) (off : Option Register) :
    Confines (fun g => ⟨(g.get base + g.distance off).toNat, op.width⟩)
      (register base >>= fun b => distance off >>= fun d => indexed op reg (offset b d) :
        Action σ Unit) := by
  cases hop : op.isStore with
  | false =>
    exact (looks_register base).leaves.before fun _ => (looks_distance off).leaves.before fun _ =>
      (leaves_memory_indexed hop reg _).confines
  | true =>
    have hs (b : Word) : Spares (distance off >>= fun d => indexed op reg (offset b d) :
        Action σ Unit) :=
      (looks_distance off).spares.bind fun d => spares_indexed hop reg _
    exact (tells_register base).confines (A := fun b g => ⟨(b + g.distance off).toNat, op.width⟩)
      (fun b => (tells_distance off).confines (A := fun d _ => ⟨(b + d).toNat, op.width⟩)
        (fun d => confines_indexedAt op reg b d) ((hs b).leaves_of (·.distance off)))
      (((looks_register base).spares.bind hs).leaves_of (·.get base))

/-- Addresses need not be known before the bytes in front of them have been written: the first one
is, and an address behind a byte that was written does not wrap. -/
theorem confines_copy (source : Nat → Int) {target : Nat → Int} {start length : Nat}
    (htarget : ∀ j, j = 0 ∨ start + j ≤ 4096 → target j = (start + j : Nat)) {i n : Nat}
    (hlength : i + n ≤ length) (hi : i = 0 ∨ start + i ≤ 4096) :
    Confines (fun _ => ⟨start, length⟩) (copy source target i n : Action σ Unit) := by
  induction n generalizing i with
  | zero => exact Leaves.confines fun _ => rfl
  | succ n ih =>
    refine (looks_loadByte _).leaves.before fun b => ?_
    intro m u k h
    obtain ⟨v, l, hl, h⟩ := run_bind_eq_ok h
    obtain ⟨j, hj, -⟩ := Memory.writeByte_eq_ok_iff.mp (memory_of_storeByte hl)
    have hti := htarget i hi
    have hstore : Region.Contains ⟨start, length⟩ (target i) := by
      rw [hti, Region.contains_iff]
      omega
    exact (confines_storeByte hstore b hl).trans (ih (by omega) (.inr (by omega)) h)

/-- Addresses of a block do not wrap before they are out of range. -/
theorem offset_of_le (w : Word) {j : Nat} (hj : j = 0 ∨ w.toNat + j ≤ 4096) :
    offset w (UInt16.ofNat j) = (w.toNat + j : Nat) := by
  rw [offset, UInt16.toNat_add, UInt16.toNat_ofNat']
  have hw := UInt16.toNat_lt w
  omega

theorem confines_mcp (S : System σ) (source target : Register) (size : Word) :
    Confines (fun g => ⟨(g.get target).toNat, size.toNat⟩) (execute S (.mcp source target size)) := by
  refine (looks_register source).leaves.before fun s => ?_
  refine (tells_register target).confines (A := fun t _ => ⟨t.toNat, size.toNat⟩) (fun t => ?_)
    (((looks_register target).spares.bind fun t => spares_copy _ _ 0 _).leaves_of (·.get target))
  exact confines_copy _ (fun _ => offset_of_le t) (Nat.zero_add _).le (.inl rfl)

/-- Memory keeps all bytes that the instruction does not say that it writes. -/
theorem confines_execute (S : System σ) {i : Instruction}
    (hcall : ∀ c, i = .sys c → Confines (i.region ·) (systemCall S c)) :
    Confines (i.region ·) (execute S i) := by
  cases i with
  | sys c => exact hcall c rfl
  | mv target source =>
    exact (looks_register source).leaves.before fun w => confines_setRegister target w
  | inc target amount | dec target amount =>
    exact (looks_register target).leaves.before fun w => confines_setRegister target _
  | seti target value => exact confines_setRegister target _
  | mcp source target size => exact confines_mcp S source target size
  | debug index => exact Leaves.confines fun _ => rfl
  | nop => exact Leaves.confines fun _ => rfl
  | arith op target source =>
    exact (looks_register source).leaves.before fun w => confines_arithTo op target w
  | arithImm op target value => exact confines_arithTo op target value
  | push source stack => exact (looks_register source).leaves.before fun w => confines_push stack w
  | pop target stack =>
    exact (looks_register stack).leaves.before fun _ => (looks_loadWord _).leaves.before fun w =>
      Leaves.confines fun _ => rfl
  | rearrange op stack => exact confines_rearrange op stack
  | sop op stack => exact confines_stackArith op stack
  | pushImm value stack => exact confines_push stack value
  | test op lhs rhs =>
    exact (looks_register lhs).leaves.before fun _ => (looks_register rhs).leaves.before fun _ =>
      confines_setTestFlag _
  | testImm op lhs value =>
    exact (looks_register lhs).leaves.before fun _ => confines_setTestFlag _
  | access op reg off address => exact confines_access op reg off address
  | indexed op reg base off => exact confines_indexed op reg base off
  | jumpReg reg => exact (looks_register reg).leaves.before fun w => confines_setRegister .pc w
  | jump kind target => exact confines_jump kind target

/-! ### Cycles -/

variable (S : System σ) {r : Register}

theorem fetchAndExecute_of_ok {i : Instruction} (h : (fetchAndExecute S).run m = (.ok i, n)) :
    ∃ word data k, m.Presents word data ∧ Instruction.decode word data = some i ∧
      (execute S i).run (m.poised word data i) = (.ok (), k) ∧
        n = (k.announce [.afterExecution word]).tick := by
  cases m.finds with
  | instruction word data j hp hd =>
    rw [run_fetchAndExecute_of_some S hp hd] at h
    rcases hx : (execute S j).run (m.poised word data j) with ⟨e | _, k⟩ <;> rw [hx] at h <;>
      cases h
    exact ⟨word, data, k, hp, hd, hx, rfl⟩
  | undecodable word data hp hd =>
    rw [run_fetchAndExecute_of_none S hp hd] at h
    cases h
  | nothing hp =>
    obtain ⟨e, k, hk, -⟩ := run_fetch_of_not_presents hp
    rw [run_fetchAndExecute_of_error S hk] at h
    cases h

theorem fetchAndExecute_of_cycle {i : Instruction} (h : m.cycle S = (.ok i, n)) :
    (fetchAndExecute S).run m = (.ok i, n) := by
  rcases hf : (fetchAndExecute S).run m with ⟨e | j, k⟩
  · rw [cycle_of_error S hf] at h
    cases h
  · rw [cycle_of_ok S hf] at h
    exact h

/-- A step that succeeds has executed the instruction whose words it has fetched. -/
theorem executed_of_step {i : Instruction} (h : m.step S = (.ok i, n)) :
    ∃ word data k, (m.setStatus .executing).Presents word data ∧
      Instruction.decode word data = some i ∧
        (execute S i).run ((m.setStatus .executing).poised word data i) = (.ok (), k) ∧
          n = (k.announce [.afterExecution word]).tick := by
  unfold Machine.step at h
  split at h
  · exact fetchAndExecute_of_ok S (fetchAndExecute_of_cycle S h)
  · cases h

theorem get_fetched (m : Machine σ) (word data : Word) (hir : r ≠ .ir) (hdr : r ≠ .dr) :
    (m.fetched word data).registers.get r = m.registers.get r :=
  (RegisterFile.get_set_of_ne _ _ hdr.symm).trans (RegisterFile.get_set_of_ne _ _ hir.symm)

theorem get_poised (m : Machine σ) (word data : Word) (i : Instruction) (hpc : r ≠ .pc)
    (hir : r ≠ .ir) (hdr : r ≠ .dr) :
    (m.poised word data i).registers.get r = m.registers.get r :=
  (RegisterFile.get_set_of_ne _ _ hpc.symm).trans (get_fetched m word data hir hdr)

/-- A cycle that executes an instruction writes what the instruction writes, and what a fetch
writes. -/
theorem footprint_of_cycle {i : Instruction}
    (hget : ∀ r c, r ≠ .rv → r ≠ .pc → Leaves (·.registers.get r) (systemCall S c))
    (hregion : ∀ c, Confines ((Instruction.sys c).region ·) (systemCall S c))
    (h : m.cycle S = (.ok i, n)) :
    (∀ r, r ≠ .pc → r ≠ .ir → r ≠ .dr → r ∉ i.written →
        n.registers.get r = m.registers.get r) ∧
      Memory.AgreesOutside (i.region n.registers) m.memory n.memory := by
  obtain ⟨word, data, k, -, -, hx, rfl⟩ := fetchAndExecute_of_ok S (fetchAndExecute_of_cycle S h)
  constructor
  · intro r hpc hir hdr hr
    have hl : Leaves (·.registers.get r) (execute S i) := by
      refine leaves_execute S hpc hr fun c hc => hget r c ?_ hpc
      rintro rfl
      rw [hc] at hr
      exact hr (List.mem_singleton.mpr rfl)
    have hk := hl (m.poised word data i)
    rw [hx] at hk
    exact hk.trans (get_poised m word data i hpc hir hdr)
  · have hc : Confines (i.region ·) (execute S i) := by
      refine confines_execute S fun c hc => ?_
      rw [hc]
      exact hregion c
    have hk := hc hx
    exact hk

/-- No cycle writes a register of the machine's own, besides those of a fetch and the flags. -/
theorem get_cycle (hr : r.isReadable = false) (hir : r ≠ .ir) (hdr : r ≠ .dr) (hflags : r ≠ .flags)
    (hcall : ∀ c, Leaves (·.registers.get r) (systemCall S c)) (m : Machine σ) :
    (m.cycle S).2.registers.get r = m.registers.get r := by
  have hpc : r ≠ .pc := by
    rintro rfl
    cases hr
  have hx {word data : Word} {i : Instruction} (hd : Instruction.decode word data = some i) :
      Leaves (·.registers.get r) (execute S i) := by
    refine leaves_execute S hpc (fun hw => ?_) fun c _ => hcall c
    obtain h | h := Instruction.readable_of_written (Instruction.canonical_of_decode hd) hw
    · rw [hr] at h
      cases h
    · exact hflags h
  rcases hf : (fetchAndExecute S).run m with ⟨e | i, n⟩
  · rw [cycle_of_error S hf]
    dsimp only
    rw [Machine.fail_eq]
    refine (RegisterFile.get_set_of_ne _ _ hflags.symm).trans ?_
    obtain ⟨-, rfl | ⟨word, rfl⟩ | ⟨word, data, rfl⟩⟩ | ⟨word, data, i, -, hd, hi⟩ :=
      fetchAndExecute_of_error S hf
    · rfl
    · exact RegisterFile.get_set_of_ne _ _ hir.symm
    · exact get_fetched m word data hir hdr
    · have hn := hx hd (m.poised word data i)
      rw [hi] at hn
      exact hn.trans (get_poised m word data i hpc hir hdr)
  · rw [cycle_of_ok S hf]
    obtain ⟨word, data, k, -, hd, hi, rfl⟩ := fetchAndExecute_of_ok S hf
    have hn := hx hd (m.poised word data i)
    rw [hi] at hn
    exact hn.trans (get_poised m word data i hpc hir hdr)

end Action
end Minicomputer
