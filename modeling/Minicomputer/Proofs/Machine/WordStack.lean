import Minicomputer.Proofs.Machine.Failure

/-!
# Stacks of words

The stack instructions keep a list of words in memory: its top is where the stack register points,
and it ends where a region of memory ends. As long as the list has the words that an instruction
takes, and the region has room for those that it leaves, no instruction fails, and the machine holds
the list that the instruction makes of the one before.
-/

set_option autoImplicit false

namespace Minicomputer

/-! ### Words in memory -/

namespace Memory

variable {m n : Memory}

/-- Words one behind the other, from an address on. -/
def Stores (m : Memory) : Nat → List Word → Prop
  | _, [] => True
  | a, w :: ws => m.readWord a = .ok w ∧ Stores m (a + 2) ws

theorem readWord_congr {a : Int} (h : n.readByte a = m.readByte a)
    (h' : n.readByte (a + 1) = m.readByte (a + 1)) : n.readWord a = m.readWord a := by
  unfold readWord
  rw [h, h']

theorem Stores.congr {a : Nat} {ws : List Word} (hs : m.Stores a ws)
    (h : ∀ k : Int, a ≤ k → n.readByte k = m.readByte k) : n.Stores a ws := by
  induction ws generalizing a with
  | nil => trivial
  | cons w ws ih =>
    obtain ⟨hw, hws⟩ := hs
    refine ⟨?_, ih hws fun k hk => h k (by omega)⟩
    rw [readWord_congr (h a (by omega)) (h (a + 1) (by omega))]
    exact hw

theorem Stores.read {a i : Nat} {w : Word} {ws : List Word} (hs : m.Stores a ws)
    (hw : ws[i]? = some w) : m.readWord (a + 2 * i : Nat) = .ok w := by
  induction ws generalizing a i with
  | nil => cases hw
  | cons v ws ih =>
    cases i with
    | zero =>
      obtain rfl : v = w := Option.some.inj hw
      exact hs.1
    | succ i =>
      have ha : a + 2 * (i + 1) = a + 2 + 2 * i := by omega
      rw [ha]
      exact ih hs.2 hw

/-- One of the words is replaced, and the others are not touched. -/
theorem Stores.set {a i : Nat} {w : Word} {ws : List Word} (hs : m.Stores a ws)
    (hw : n.readWord (a + 2 * i : Nat) = .ok w)
    (h : ∀ k : Int, k < (a + 2 * i : Nat) ∨ (a + 2 * i : Nat) + 2 ≤ k →
      n.readByte k = m.readByte k) : n.Stores a (ws.set i w) := by
  induction ws generalizing a i with
  | nil => trivial
  | cons v ws ih =>
    cases i with
    | zero => exact ⟨hw, hs.2.congr fun k hk => h k (.inr (by omega))⟩
    | succ i =>
      have ha : a + 2 * (i + 1) = a + 2 + 2 * i := by omega
      rw [ha] at hw h
      refine ⟨?_, ih hs.2 hw h⟩
      rw [readWord_congr (h a (.inl (by omega))) (h (a + 1) (.inl (by omega)))]
      exact hs.1

end Memory

/-! ### The list machine -/

/-- The instructions on a stack, which is always the same one. -/
inductive StackCommand where
  | push (source : Register)
  | pushImm (value : Word)
  | pop (target : Register)
  | rearrange (op : StackOp)
  | sop (op : ArithOp)
  deriving DecidableEq

def StackCommand.on (stack : Register) : StackCommand → Instruction
  | push source => .push source stack
  | pushImm value => .pushImm value stack
  | pop target => .pop target stack
  | rearrange op => .rearrange op stack
  | sop op => .sop op stack

/-- What the instruction makes of a list of words, the top first. -/
def StackOp.onWords : StackOp → List Word → Option (List Word)
  | dup, a :: ws => some (a :: a :: ws)
  | swap, a :: b :: ws => some (b :: a :: ws)
  | drop, _ :: ws => some ws
  | pick, a :: b :: ws => some (b :: a :: b :: ws)
  | rot, a :: b :: c :: ws => some (c :: a :: b :: ws)
  | _, _ => none

/-- Unary operations take the top alone, and the others have it on their right. -/
def ArithOp.onWords (op : ArithOp) : List Word → Option (List Word)
  | [] => none
  | a :: ws =>
    if op.isUnary then (op.apply a a).map (· :: ws)
    else match ws with
      | [] => none
      | b :: ws => (op.apply b a).map (· :: ws)

/-- A list of words, and the registers besides the one that points to it. -/
structure WordStack where
  registers : RegisterFile
  words : List Word

namespace WordStack

/-- Where the top is if the stack ends in front of an address. -/
def top (bottom : Nat) (a : WordStack) : Nat := bottom - 2 * a.words.length

/-- A register as a program sees it, the stack register included. -/
def value (stack : Register) (bottom : Nat) (a : WordStack) (r : Register) : Word :=
  if r = stack then UInt16.ofNat (a.top bottom) else a.registers.get r

/-- There is no next list where words are missing or there is a division by zero. -/
def next? (stack : Register) (bottom : Nat) (a : WordStack) : StackCommand → Option WordStack
  | .push source => some { a with words := a.value stack bottom source :: a.words }
  | .pushImm value => some { a with words := value :: a.words }
  | .pop target =>
    match a.words with
    | [] => none
    | w :: words => some { registers := a.registers.set target w, words }
  | .rearrange op => (op.onWords a.words).map fun words => { a with words }
  | .sop op => (op.onWords a.words).map fun words => { a with words }

/-- Commands one after the other, which never leave more words than there is room for. -/
def run? (stack : Register) (bottom room : Nat) :
    List StackCommand → WordStack → Option WordStack
  | [], a => some a
  | c :: cs, a =>
    match a.next? stack bottom c with
    | none => none
    | some b => if b.words.length ≤ room then run? stack bottom room cs b else none

end WordStack

namespace Action

variable {σ : Type} (S : System σ)

/-- Instructions one after the other, without what fetches them. -/
def executeAll : List Instruction → Action σ Unit
  | [] => pure ()
  | i :: is => do
    execute S i
    executeAll is

/-! ### Machines that hold a list -/

variable {m n : Machine σ}

/-- The stack register points to the words of the list, which end at the bottom of the region. -/
structure Holds (stack : Register) (low bottom : Nat) (m : Machine σ) (a : WordStack) (p : Nat) :
    Prop where
  top : p + 2 * a.words.length = bottom
  room : low ≤ p
  pointer : m.registers.get stack = UInt16.ofNat p
  words : m.memory.Stores p a.words
  others : ∀ r, r ≠ stack → m.registers.get r = a.registers.get r

/-- The action does not fail, leads to a machine that holds the list, and writes no byte outside the
region. -/
def Reaches (stack : Register) (low bottom : Nat) (x : Action σ Unit) (m : Machine σ)
    (b : WordStack) : Prop :=
  ∃ n q, x.run m = (.ok (), n) ∧ Holds stack low bottom n b q ∧
    ∀ k : Int, k < low ∨ bottom ≤ k → n.memory.readByte k = m.memory.readByte k

variable {stack : Register} {low bottom p : Nat} {a b : WordStack} {x : Action σ Unit}

theorem Holds.value (h : Holds stack low bottom m a p) (r : Register) :
    m.registers.get r = a.value stack bottom r := by
  have hp := h.top
  have htop : a.top bottom = p := by
    unfold WordStack.top
    omega
  unfold WordStack.value
  split
  · next hr =>
    subst hr
    rw [h.pointer, htop]
  · next hr => exact h.others r hr

theorem reaches_push (hb : bottom ≤ 4096) (h : Holds stack low bottom m a p)
    (hroom : low + 2 * (a.words.length + 1) ≤ bottom) (w : Word) :
    Reaches stack low bottom (push stack w) m { a with words := w :: a.words } := by
  have hp := h.top
  obtain ⟨q, rfl⟩ : ∃ q, p = q + 2 := ⟨p - 2, by omega⟩
  have hsp : m.registers.get stack - 2 = UInt16.ofNat q := by
    rw [h.pointer]
    apply UInt16.toNat_inj.mp
    rw [UInt16.toNat_sub, UInt16.toNat_ofNat', UInt16.toNat_ofNat']
    have htwo : (2 : Word).toNat = 2 := rfl
    omega
  have hoffset : Action.offset (UInt16.ofNat q) 0 = (q : Int) := by
    unfold Action.offset
    rw [UInt16.add_zero, UInt16.toNat_ofNat', Nat.mod_eq_of_lt (by omega)]
  have hreg : (register stack).run m = (.ok (m.registers.get stack), m) := rfl
  have hset : (setRegister stack (UInt16.ofNat q)).run m =
      (.ok (), m.setRegister stack (UInt16.ofNat q)) := rfl
  obtain ⟨n, hstore, hregisters, hread, hframe⟩ :=
    run_storeWord_of_lt (m.setRegister stack (UInt16.ofNat q)) (a := q) (by omega) w
  have hrun : (push stack w).run m = (.ok (), n) := by
    rw [push, run_bind_of_ok hreg]
    dsimp only
    rw [hsp, run_bind_of_ok hset, hoffset, hstore]
  refine ⟨n, q, hrun, ⟨?_, by omega, ?_, ⟨hread, ?_⟩, fun r hr => ?_⟩, fun k hk => hframe k ?_⟩
  · rw [List.length_cons]
    omega
  · rw [hregisters]
    exact RegisterFile.get_set_self _ _ _
  · exact h.words.congr fun k hk => hframe k (.inr (by omega))
  · rw [hregisters]
    exact (RegisterFile.get_set_of_ne _ _ hr.symm).trans (h.others r hr)
  · omega

/-! ### Parts of instructions -/

theorem Reaches.bind {f : Unit → Action σ Unit} {c : WordStack}
    (hx : Reaches stack low bottom x m b)
    (hf : ∀ n q, Holds stack low bottom n b q → Reaches stack low bottom (f ()) n c) :
    Reaches stack low bottom (x >>= f) m c := by
  obtain ⟨n, q, hrun, hn, hframe⟩ := hx
  obtain ⟨k, r, hrun', hk, hframe'⟩ := hf n q hn
  refine ⟨k, r, ?_, hk, fun i hi => (hframe' i hi).trans (hframe i hi)⟩
  rw [run_bind_of_ok hrun, hrun']

/-- What only looks at the machine comes before what changes it. -/
theorem Reaches.after {α : Type} {y : Action σ α} {f : α → Action σ Unit} {v : α}
    (hy : y.run m = (.ok v, m)) (hf : Reaches stack low bottom (f v) m b) :
    Reaches stack low bottom (y >>= f) m b := by
  obtain ⟨n, q, hrun, hn, hframe⟩ := hf
  exact ⟨n, q, (run_bind_of_ok hy).trans hrun, hn, hframe⟩

theorem Holds.register (h : Holds stack low bottom m a p) :
    (register stack).run m = (.ok (UInt16.ofNat p), m) := by
  rw [← h.pointer]
  rfl

theorem offset_ofNat {i : Nat} {d : Word} (hd : d.toNat = 2 * i) (hp : p + 2 * i < 4096) :
    offset (UInt16.ofNat p) d = (p + 2 * i : Nat) := by
  unfold offset
  rw [UInt16.toNat_add, UInt16.toNat_ofNat']
  omega

theorem Holds.loadWord (h : Holds stack low bottom m a p) (hb : bottom ≤ 4096) {i : Nat}
    {d w : Word} (hd : d.toNat = 2 * i) (hw : a.words[i]? = some w) :
    (loadWord (offset (UInt16.ofNat p) d)).run m = (.ok w, m) := by
  have hp := h.top
  have hi : i < a.words.length := (List.getElem?_eq_some_iff.mp hw).1
  rw [offset_ofNat hd (by omega)]
  exact run_loadWord_of_ok (h.words.read hw)

theorem Holds.storeWord (h : Holds stack low bottom m a p) (hb : bottom ≤ 4096) {i : Nat}
    {d : Word} (hd : d.toNat = 2 * i) (hi : i < a.words.length) (w : Word) :
    Reaches stack low bottom (storeWord (offset (UInt16.ofNat p) d) w) m
      { a with words := a.words.set i w } := by
  have hp := h.top
  have hroom := h.room
  obtain ⟨n, hrun, hregisters, hread, hframe⟩ :=
    run_storeWord_of_lt m (a := p + 2 * i) (by omega) w
  refine ⟨n, p, ?_, ⟨?_, h.room, ?_, h.words.set hread hframe, ?_⟩, fun k hk => hframe k ?_⟩
  · rw [offset_ofNat hd (by omega), hrun]
  · rw [List.length_set]
    exact h.top
  · rw [hregisters]
    exact h.pointer
  · rw [hregisters]
    exact h.others
  · omega

/-- The pointer moves on, and the word it pointed to is no longer on the list. -/
theorem Holds.pop {w : Word} {words : List Word} (h : Holds stack low bottom m a p)
    (hw : a.words = w :: words) :
    Reaches stack low bottom (setRegister stack (UInt16.ofNat p + 2)) m { a with words } := by
  have hp := h.top
  rw [hw, List.length_cons] at hp
  have hwords := h.words
  rw [hw] at hwords
  refine ⟨m.setRegister stack (UInt16.ofNat p + 2), p + 2, rfl, ⟨?_, ?_, ?_, hwords.2, ?_⟩,
    fun _ _ => rfl⟩
  · show p + 2 + 2 * words.length = bottom
    omega
  · exact Nat.le_add_right_of_le h.room
  · exact (RegisterFile.get_set_self _ _ _).trans (UInt16.ofNat_add p 2).symm
  · exact fun r hr => (RegisterFile.get_set_of_ne _ _ hr.symm).trans (h.others r hr)

theorem run_arith_of_some {op : ArithOp} {lhs rhs w : Word} (h : op.apply lhs rhs = some w) :
    (arith op lhs rhs).run m = (.ok w, m) := by
  unfold arith
  rw [h]
  rfl

/-! ### Instructions -/

theorem reaches_pop (h : Holds stack low bottom m a p) (hb : bottom ≤ 4096) {target : Register}
    (ht : target ≠ stack) {w : Word} {words : List Word} (hw : a.words = w :: words) :
    Reaches stack low bottom (execute S (.pop target stack)) m
      { registers := a.registers.set target w, words } := by
  have hset : Holds stack low bottom (m.setRegister target w)
      { a with registers := a.registers.set target w } p := by
    refine ⟨h.top, h.room, (RegisterFile.get_set_of_ne _ _ ht).trans h.pointer, h.words,
      fun r hr => ?_⟩
    show (m.registers.set target w).get r = (a.registers.set target w).get r
    rw [RegisterFile.get_set, RegisterFile.get_set, h.others r hr]
  have hload := h.loadWord hb (d := 0) (i := 0) (w := w) rfl (by rw [hw]; rfl)
  obtain ⟨n, q, hrun, hn, hframe⟩ := hset.pop hw
  refine ⟨n, q, ?_, hn, hframe⟩
  have hwrite : (setRegister target w).run m = (.ok (), m.setRegister target w) := rfl
  rw [execute, run_bind_of_ok h.register, run_bind_of_ok hload, run_bind_of_ok hwrite,
    run_bind_of_ok hset.register, hrun]

theorem Holds.eq_top {n : Machine σ} {q : Nat} (h : Holds stack low bottom m a p)
    (hn : Holds stack low bottom n b q) (hl : b.words.length = a.words.length) : q = p := by
  have hp := h.top
  have hq := hn.top
  omega

theorem reaches_rearrange (h : Holds stack low bottom m a p) (hb : bottom ≤ 4096) {op : StackOp}
    {words : List Word} (hw : op.onWords a.words = some words)
    (hroom : low + 2 * words.length ≤ bottom) :
    Reaches stack low bottom (rearrange op stack) m { a with words } := by
  refine Reaches.after h.register ?_
  unfold StackOp.onWords at hw
  split at hw <;> cases hw
  · next w ws ha =>
    have hload := h.loadWord hb (d := 0) (i := 0) (w := w) rfl (by rw [ha]; rfl)
    rw [List.length_cons, ← ha] at hroom
    have hpush := reaches_push hb h hroom w
    rw [ha] at hpush
    exact Reaches.after hload hpush
  · next top next ws ha =>
    have hfirst := h.loadWord hb (d := 0) (i := 0) (w := top) rfl (by rw [ha]; rfl)
    have hsecond := h.loadWord hb (d := 2) (i := 1) (w := next) rfl (by rw [ha]; rfl)
    refine Reaches.after hfirst (Reaches.after hsecond ?_)
    have hstore := h.storeWord hb (d := 0) (i := 0) rfl (by rw [ha]; exact Nat.succ_pos _) next
    rw [ha] at hstore
    refine hstore.bind fun n q hn => ?_
    obtain rfl : q = p := h.eq_top hn (by rw [ha]; rfl)
    exact hn.storeWord hb (d := 2) (i := 1) rfl (Nat.succ_lt_succ (Nat.succ_pos _)) top
  · next ha => exact h.pop ha
  · next top next ws ha =>
    have hload := h.loadWord hb (d := 2) (i := 1) (w := next) rfl (by rw [ha]; rfl)
    rw [List.length_cons, ← ha] at hroom
    have hpush := reaches_push hb h hroom next
    rw [ha] at hpush
    exact Reaches.after hload hpush
  · next top next third ws ha =>
    have hfirst := h.loadWord hb (d := 0) (i := 0) (w := top) rfl (by rw [ha]; rfl)
    have hsecond := h.loadWord hb (d := 2) (i := 1) (w := next) rfl (by rw [ha]; rfl)
    have hthird := h.loadWord hb (d := 4) (i := 2) (w := third) rfl (by rw [ha]; rfl)
    refine Reaches.after hfirst (Reaches.after hsecond (Reaches.after hthird ?_))
    have hstore := h.storeWord hb (d := 0) (i := 0) rfl (by rw [ha]; exact Nat.succ_pos _) third
    rw [ha] at hstore
    refine hstore.bind fun n q hn => ?_
    obtain rfl : q = p := h.eq_top hn (by rw [ha]; rfl)
    refine (hn.storeWord hb (d := 2) (i := 1) rfl (by simp) top).bind fun k r hk => ?_
    obtain rfl : r = q := hn.eq_top hk rfl
    exact hk.storeWord hb (d := 4) (i := 2) rfl (by simp) next

theorem reaches_stackArith (h : Holds stack low bottom m a p) (hb : bottom ≤ 4096) {op : ArithOp}
    {words : List Word} (hw : op.onWords a.words = some words) :
    Reaches stack low bottom (stackArith op stack) m { a with words } := by
  refine Reaches.after h.register ?_
  cases ha : a.words with
  | nil =>
    rw [ha] at hw
    cases hw
  | cons top ws =>
    rw [ha] at hw
    unfold ArithOp.onWords at hw
    have hfirst := h.loadWord hb (d := 0) (i := 0) (w := top) rfl (by rw [ha]; rfl)
    refine Reaches.after hfirst ?_
    cases hu : op.isUnary with
    | true =>
      have hw : (op.apply top top).map (· :: ws) = some words := by
        simpa only [hu, if_true] using hw
      obtain ⟨w, hop, rfl⟩ := Option.map_eq_some_iff.mp hw
      have hstore := h.storeWord hb (d := 0) (i := 0) rfl (by rw [ha]; exact Nat.succ_pos _) w
      rw [ha] at hstore
      exact Reaches.after (run_arith_of_some hop) hstore
    | false =>
      cases ws with
      | nil => simp [hu] at hw
      | cons next ws =>
        have hw : (op.apply next top).map (· :: ws) = some words := by
          simpa [hu] using hw
        obtain ⟨w, hop, rfl⟩ := Option.map_eq_some_iff.mp hw
        have hsecond := h.loadWord hb (d := 2) (i := 1) (w := next) rfl (by rw [ha]; rfl)
        refine Reaches.after hsecond (Reaches.after (run_arith_of_some hop) ?_)
        refine (h.pop ha).bind fun n q hn => ?_
        -- The result is written through the new pointer, which is where the second word was.
        obtain rfl : q = p + 2 := by
          have hp := h.top
          have hq := hn.top
          rw [ha] at hp
          simp only [List.length_cons] at hp hq
          omega
        have hpointer : UInt16.ofNat p + 2 = UInt16.ofNat (p + 2) := (UInt16.ofNat_add p 2).symm
        rw [hpointer]
        exact hn.storeWord hb (d := 0) (i := 0) rfl (Nat.succ_pos _) w

/-- One command: where the list machine goes on, the machine goes along. -/
theorem reaches_next (h : Holds stack low bottom m a p) (hb : bottom ≤ 4096) {c : StackCommand}
    (hc : c ≠ .pop stack) (hn : a.next? stack bottom c = some b)
    (hroom : low + 2 * b.words.length ≤ bottom) :
    Reaches stack low bottom (execute S (c.on stack)) m b := by
  cases c with
  | push source =>
    cases hn
    have hvalue : (register source).run m = (.ok (a.value stack bottom source), m) := by
      rw [← h.value source]
      rfl
    exact Reaches.after hvalue (reaches_push hb h hroom _)
  | pushImm value =>
    cases hn
    exact reaches_push hb h hroom value
  | pop target =>
    unfold WordStack.next? at hn
    cases ha : a.words with
    | nil =>
      rw [ha] at hn
      cases hn
    | cons w words =>
      rw [ha] at hn
      cases hn
      exact reaches_pop S h hb (fun e => hc (congrArg _ e)) ha
  | rearrange op =>
    obtain ⟨words, hw, rfl⟩ := Option.map_eq_some_iff.mp hn
    exact reaches_rearrange h hb hw hroom
  | sop op =>
    obtain ⟨words, hw, rfl⟩ := Option.map_eq_some_iff.mp hn
    exact reaches_stackArith h hb hw

/-! ### Sequences of instructions -/

/-- Every command in turn, as long as none of them leaves more words than there is room for. -/
theorem reaches_run {cs : List StackCommand} (hcs : ∀ c ∈ cs, c ≠ .pop stack)
    (hb : bottom ≤ 4096) (hlow : low ≤ bottom) (h : Holds stack low bottom m a p)
    (hrun : WordStack.run? stack bottom ((bottom - low) / 2) cs a = some b) :
    Reaches stack low bottom (executeAll S (cs.map (·.on stack))) m b := by
  induction cs generalizing m a p with
  | nil =>
    cases hrun
    exact ⟨m, p, rfl, h, fun _ _ => rfl⟩
  | cons c cs ih =>
    unfold WordStack.run? at hrun
    split at hrun
    · cases hrun
    · next next hn =>
      split at hrun
      · next hl =>
        have hroom : low + 2 * next.words.length ≤ bottom := by omega
        have hfirst := reaches_next S h hb (hcs c List.mem_cons_self) hn hroom
        exact hfirst.bind fun n q hq =>
          ih (fun d hd => hcs d (List.mem_cons_of_mem c hd)) hq hrun
      · cases hrun

end Action

namespace WordStack

variable {stack : Register} {bottom room : Nat} {a b : WordStack}

theorem next?_get {c : StackCommand} (h : a.next? stack bottom c = some b) {r : Register}
    (hr : c ≠ .pop r) : b.registers.get r = a.registers.get r := by
  cases c with
  | push source =>
    cases h
    rfl
  | pushImm value =>
    cases h
    rfl
  | pop target =>
    unfold next? at h
    cases ha : a.words with
    | nil =>
      rw [ha] at h
      cases h
    | cons w words =>
      rw [ha] at h
      cases h
      exact RegisterFile.get_set_of_ne _ _ fun e => hr (congrArg _ e)
  | rearrange op =>
    obtain ⟨words, -, rfl⟩ := Option.map_eq_some_iff.mp h
    rfl
  | sop op =>
    obtain ⟨words, -, rfl⟩ := Option.map_eq_some_iff.mp h
    rfl

/-- A register that is not popped keeps its value. -/
theorem run?_get {cs : List StackCommand} (h : run? stack bottom room cs a = some b) {r : Register}
    (hr : .pop r ∉ cs) : b.registers.get r = a.registers.get r := by
  induction cs generalizing a with
  | nil =>
    cases h
    rfl
  | cons c cs ih =>
    obtain ⟨hc, hcs⟩ := List.ne_and_not_mem_of_not_mem_cons hr
    unfold run? at h
    split at h
    · cases h
    · next next hn =>
      split at h
      · exact (ih h hcs).trans (next?_get hn hc.symm)
      · cases h

end WordStack

/-! ### Refinement -/

/-- Commands on a stack that ends in front of `hi` do to the memory and the registers what they do
to a list of words, if the list machine never lacks a word, never divides by zero and never has more
words than there is room for from `lo` on. -/
theorem Action.executeAll_refines {σ : Type} (S : System σ) {m : Machine σ} {s : Register}
    {lo hi : Nat} {words : List Word} {cs : List StackCommand} {b : WordStack}
    (hlo : lo ≤ hi) (hhi : hi ≤ memorySize) (hroom : words.length ≤ (hi - lo) / 2)
    (hs : m.registers.get s = UInt16.ofNat (hi - 2 * words.length))
    (hwords : m.memory.Stores (hi - 2 * words.length) words) (hcs : ∀ c ∈ cs, c ≠ .pop s)
    (hrun : WordStack.run? s hi ((hi - lo) / 2) cs ⟨m.registers, words⟩ = some b) :
    ∃ n : Machine σ, (executeAll S (cs.map (·.on s))).run m = (.ok (), n) ∧
      n.registers.get s = UInt16.ofNat (hi - 2 * b.words.length) ∧
      n.memory.Stores (hi - 2 * b.words.length) b.words ∧
      b.words.length ≤ (hi - lo) / 2 ∧
      (∀ r, r ≠ s → n.registers.get r = b.registers.get r) ∧
      (∀ r, r ≠ s → .pop r ∉ cs → n.registers.get r = m.registers.get r) ∧
      ∀ k : Int, k < lo ∨ hi ≤ k → n.memory.readByte k = m.memory.readByte k := by
  have h : Holds s lo hi m ⟨m.registers, words⟩ (hi - 2 * words.length) :=
    ⟨by dsimp only; omega, by omega, hs, hwords, fun _ _ => rfl⟩
  obtain ⟨n, q, hn, hq, hframe⟩ := reaches_run S hcs hhi hlo h hrun
  have htop := hq.top
  have hlow := hq.room
  obtain rfl : q = hi - 2 * b.words.length := by omega
  refine ⟨n, hn, hq.pointer, hq.words, by omega, hq.others, fun r hr hp => ?_, hframe⟩
  exact (hq.others r hr).trans (WordStack.run?_get hrun hp)

/-- A number below a difference and the program counter, which are turned and popped. -/
def mixedCommands : List StackCommand :=
  [.pushImm 5, .pushImm 9, .pushImm 7, .sop .sub, .push .pc, .rearrange .rot, .rearrange .swap,
    .pop .t0]

/-- The system is not asked for anything. -/
def silent : System Unit := ⟨fun _ _ => pure (.ok .proceed, ()), id⟩

/-- There is room for the three words that the stack has at most, up to the end of memory. -/
theorem Action.executeAll_refines_mixedCommands :
    ∃ n, (executeAll silent (mixedCommands.map (·.on .sp))).run (Machine.new ()) = (.ok (), n) ∧
      n.registers.get .sp = 4092 ∧ n.registers.get .t0 = 0 ∧ n.memory.Stores 4092 [5, 2] := by
  have hwords : (Machine.new ()).memory.Stores (4096 - 2 * ([] : List Word).length) [] := trivial
  have hrun : WordStack.run? .sp 4096 ((4096 - 4090) / 2) mixedCommands
      ⟨(Machine.new ()).registers, []⟩ =
        some ⟨(Machine.new ()).registers.set .t0 0, [5, 2]⟩ := by rfl
  obtain ⟨n, hn, hsp, hleft, -, hothers, -, -⟩ :=
    executeAll_refines silent (by decide) (by decide) (by decide) (by decide) hwords (by decide)
      hrun
  exact ⟨n, hn, hsp, hothers .t0 (by decide), hleft⟩

end Minicomputer
