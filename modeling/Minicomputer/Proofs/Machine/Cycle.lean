import Minicomputer.Proofs.Machine.Agreement
import Minicomputer.Proofs.Machine.Run

/-!
# The parts of a cycle

A cycle reads the words at the program counter, moves the program counter, executes, and counts. The
parts are set apart here as functions of the machine, so that what holds of a cycle follows from
what holds of the execution of one instruction, and system calls can be looked at on their own.
-/

set_option autoImplicit false

namespace Minicomputer

variable {σ : Type}

namespace Machine

/-- The second word of a long instruction, and zero for a short one. -/
def dataWord (m : Machine σ) (word : Word) : Except MemoryFault Word :=
  if Instruction.isLong word then m.memory.readWord (m.pc.toNat + 2) else .ok 0

/-- The words at the program counter are those of an instruction and its data. -/
def Presents (m : Machine σ) (word data : Word) : Prop :=
  m.memory.readWord m.pc.toNat = .ok word ∧ m.dataWord word = .ok data

theorem presents_unique {m : Machine σ} {word data word' data' : Word}
    (h : m.Presents word data) (h' : m.Presents word' data') : word = word' ∧ data = data' := by
  obtain rfl : word = word' := Except.ok.inj (h.1.symm.trans h'.1)
  exact ⟨rfl, Except.ok.inj (h.2.symm.trans h'.2)⟩

/-- What the next cycle finds at the program counter. -/
inductive Finds (m : Machine σ) : Prop where
  | instruction (word data : Word) (i : Instruction) (hp : m.Presents word data)
      (hd : Instruction.decode word data = some i)
  | undecodable (word data : Word) (hp : m.Presents word data)
      (hd : Instruction.decode word data = none)
  | nothing (hp : ∀ word data, ¬ m.Presents word data)

theorem finds (m : Machine σ) : m.Finds := by
  by_cases hp : ∃ word data, m.Presents word data
  · obtain ⟨word, data, hp⟩ := hp
    cases hd : Instruction.decode word data with
    | none => exact .undecodable word data hp hd
    | some i => exact .instruction word data i hp hd
  · exact .nothing fun word data h => hp ⟨word, data, h⟩

/-- The instruction is the one that the next cycle executes. -/
def Upcoming (m : Machine σ) (i : Instruction) : Prop :=
  ∃ word data, m.Presents word data ∧ Instruction.decode word data = some i

def fetched (m : Machine σ) (word data : Word) : Machine σ :=
  ((m.setRegister .ir word).setRegister .dr data).announce [.fetched m.pc word]

/-- The machine on which a fetched instruction is executed. -/
def poised (m : Machine σ) (word data : Word) (i : Instruction) : Machine σ :=
  ((m.fetched word data).setRegister .pc (m.pc + UInt16.ofNat i.size)).announce
    [.beforeExecution word]

def tick (m : Machine σ) : Machine σ := { m with cycles := m.cycles + 1 }

@[simp] theorem system_setStatus (m : Machine σ) (status : Status) :
    (m.setStatus status).system = m.system := by
  rw [setStatus_eq]

@[simp] theorem system_fail (e : Fault) (m : Machine σ) : (m.fail e).system = m.system := by
  rw [fail_eq]

@[simp] theorem system_stopAtBreakpoint (m : Machine σ) :
    m.stopAtBreakpoint.system = m.system := by
  obtain h | ⟨-, -, h⟩ := m.stopAtBreakpoint_cases <;> rw [h]
  exact m.system_setStatus .breakpoint

theorem system_reset (S : System σ) (m : Machine σ) :
    (m.reset S).system = m.system.map S.reset := by
  unfold reset
  exact system_setStatus _ .ready

theorem system_load (S : System σ) (p : Program) (m : Machine σ) :
    (m.load S p).2.system = m.system.map S.reset := by
  rw [← system_reset]
  unfold load
  dsimp only
  split
  · rfl
  · split <;> rfl

end Machine

namespace Action

/-- The end of a cycle of which the instruction has been executed. -/
def conclude (word : Word) (i : Instruction) :
    Except Fault Unit × Machine σ → Except Fault Instruction × Machine σ
  | (.ok (), m) => (.ok i, (m.announce [.afterExecution word]).tick)
  | (.error e, m) => (.error e, m)

/-- What the machine makes of the answer of its operating system. -/
def settle : (Except Fault Reply × σ) × Machine σ → Except Fault Unit × Machine σ
  | ((.error e, s), m) => (.error e, { m with system := some s })
  | ((.ok .proceed, s), m) => (.ok (), { m with system := some s })
  | ((.ok .exit, s), m) => (.ok (), { m with system := some s }.setStatus .finished)
  | ((.ok .needsInput, s), m) =>
    (.ok (), ({ m with system := some s }.setRegister .pc (m.pc - 2)).setStatus .waiting)

theorem run_bind_of_ok {α β : Type} {x : Action σ α} {f : α → Action σ β} {m n : Machine σ} {a : α}
    (h : x.run m = (.ok a, n)) : (x >>= f).run m = (f a).run n := by
  change ExceptT.bindCont f (x.run m).1 (x.run m).2 = _
  rw [h]
  rfl

theorem run_bind_of_error {α β : Type} {x : Action σ α} {f : α → Action σ β} {m n : Machine σ}
    {e : Fault} (h : x.run m = (.error e, n)) : (x >>= f).run m = (.error e, n) := by
  change ExceptT.bindCont f (x.run m).1 (x.run m).2 = _
  rw [h]
  rfl

theorem run_ofMemory {α : Type} (x : Except MemoryFault α) (m : Machine σ) :
    (ofMemory x).run m = (x.mapError .memory, m) := by
  cases x <;> rfl

theorem run_loadWord (a : Int) (m : Machine σ) :
    (loadWord a).run m = ((m.memory.readWord a).mapError .memory, m) :=
  run_ofMemory _ m

/-- The instruction register is written in between, which does not matter. -/
theorem run_loadData (word : Word) (m : Machine σ) :
    (loadData m.pc word).run (m.setRegister .ir word) =
      ((m.dataWord word).mapError .memory, m.setRegister .ir word) := by
  unfold loadData Machine.dataWord
  split
  · exact run_loadWord _ _
  · rfl

variable (S : System σ) {m : Machine σ} {word data : Word} {i : Instruction}

theorem run_fetch_of_presents (h : m.Presents word data) :
    fetch.run m = (.ok (word, data), m.fetched word data) := by
  have hpc : (register .pc).run m = (.ok m.pc, m) := rfl
  have hir : (setRegister .ir word).run m = (.ok (), m.setRegister .ir word) := rfl
  have hw := run_loadWord m.pc.toNat m
  have hd := run_loadData word m
  rw [h.1] at hw
  rw [h.2] at hd
  rw [fetch_eq, run_bind_of_ok hpc, run_bind_of_ok hw, run_bind_of_ok hir, run_bind_of_ok hd]
  rfl

/-- A fetch that fails has at most written the instruction register. -/
theorem run_fetch_of_not_presents (h : ∀ word data, ¬ m.Presents word data) :
    ∃ e n, fetch.run m = (.error e, n) ∧ (n = m ∨ ∃ word, n = m.setRegister .ir word) := by
  have hpc : (register .pc).run m = (.ok m.pc, m) := rfl
  have hw := run_loadWord m.pc.toNat m
  rw [fetch_eq, run_bind_of_ok hpc]
  cases hr : m.memory.readWord m.pc.toNat with
  | error e =>
    rw [hr] at hw
    exact ⟨_, _, run_bind_of_error hw, .inl rfl⟩
  | ok word =>
    have hir : (setRegister .ir word).run m = (.ok (), m.setRegister .ir word) := rfl
    have hd := run_loadData word m
    rw [hr] at hw
    rw [run_bind_of_ok hw, run_bind_of_ok hir]
    cases hq : m.dataWord word with
    | error e =>
      rw [hq] at hd
      exact ⟨_, _, run_bind_of_error hd, .inr ⟨word, rfl⟩⟩
    | ok data => exact absurd ⟨hr, hq⟩ (h word data)

theorem run_fetchAndExecute_of_error {e : Fault} {n : Machine σ}
    (h : fetch.run m = (.error e, n)) : (fetchAndExecute S).run m = (.error e, n) := by
  have hpc : (register .pc).run m = (.ok m.pc, m) := rfl
  rw [fetchAndExecute, run_bind_of_ok hpc, run_bind_of_error h]

theorem run_fetchAndExecute_of_none (h : m.Presents word data)
    (hd : Instruction.decode word data = none) :
    (fetchAndExecute S).run m = (.error (.undecodable word), m.fetched word data) := by
  have hpc : (register .pc).run m = (.ok m.pc, m) := rfl
  rw [fetchAndExecute, run_bind_of_ok hpc, run_bind_of_ok (run_fetch_of_presents h)]
  dsimp only
  rw [hd]
  rfl

theorem run_fetchAndExecute_of_some (h : m.Presents word data)
    (hd : Instruction.decode word data = some i) :
    (fetchAndExecute S).run m = conclude word i ((execute S i).run (m.poised word data i)) := by
  have hpc : (register .pc).run m = (.ok m.pc, m) := rfl
  have hset : (setRegister .pc (m.pc + UInt16.ofNat i.size)).run (m.fetched word data) =
      (.ok (), (m.fetched word data).setRegister .pc (m.pc + UInt16.ofNat i.size)) := rfl
  have hann : (announce (.beforeExecution word)).run
      ((m.fetched word data).setRegister .pc (m.pc + UInt16.ofNat i.size)) =
        (.ok (), m.poised word data i) := rfl
  rw [fetchAndExecute, run_bind_of_ok hpc, run_bind_of_ok (run_fetch_of_presents h)]
  dsimp only
  rw [hd]
  dsimp only
  rw [run_bind_of_ok hset, run_bind_of_ok hann]
  rcases he : (execute S i).run (m.poised word data i) with ⟨e | _, n⟩
  · exact run_bind_of_error he
  · exact run_bind_of_ok he

theorem run_systemCall_of_none (c : Byte) (h : m.system = none) :
    (systemCall S c).run m =
      (.error (.systemCall "system call made while one is in progress"), m) := by
  have hg : (get : Action σ (Machine σ)).run m = (.ok m, m) := rfl
  rw [systemCall, run_bind_of_ok hg, h]
  rfl

theorem run_systemCall_of_some (c : Byte) {s : σ} (h : m.system = some s) :
    (systemCall S c).run m = settle (S.call c s { m with system := none }) := by
  have hg : (get : Action σ (Machine σ)).run m = (.ok m, m) := rfl
  have hm : (modify fun m => { m with system := none } : Action σ Unit).run m =
      (.ok (), { m with system := none }) := rfl
  rcases hc : S.call c s { m with system := none } with ⟨⟨reply, t⟩, n⟩
  have hl : (liftM (S.call c s) : Action σ (Except Fault Reply × σ)).run { m with system := none } =
      (.ok (reply, t), n) := by
    change (Except.ok (S.call c s { m with system := none }).1,
      (S.call c s { m with system := none }).2) = _
    rw [hc]
  have hn : (modify fun m => { m with system := some t } : Action σ Unit).run n =
      (.ok (), { n with system := some t }) := rfl
  rw [systemCall, run_bind_of_ok hg, h]
  dsimp only
  rw [run_bind_of_ok hm, run_bind_of_ok hl, run_bind_of_ok hn]
  rcases reply with e | ⟨_ | _ | _⟩ <;> rfl

theorem cycle_of_ok {n : Machine σ} (h : (fetchAndExecute S).run m = (.ok i, n)) :
    m.cycle S = (.ok i, n) := by
  unfold Machine.cycle
  rw [h]

theorem cycle_of_error {n : Machine σ} {e : Fault}
    (h : (fetchAndExecute S).run m = (.error e, n)) : m.cycle S = (.error e, n.fail e) := by
  unfold Machine.cycle
  rw [h]

/-! ### Whole cycles -/

/-- Machines that are related, or are so as soon as both have fetched the same words. -/
def Fetching (R : Machine σ → Machine σ → Prop) (m n : Machine σ) : Prop :=
  R m n ∨ m.pc = n.pc ∧ ∃ word data, m.Presents word data ∧ n.Presents word data ∧
    R (m.fetched word data) (n.fetched word data)

section

variable {R : Machine σ → Machine σ → Prop} (hR : Congruence R)

include hR

theorem presents_of_related {n : Machine σ} (h : R m n) :
    m.Presents word data ↔ n.Presents word data := by
  unfold Machine.Presents Machine.dataWord Machine.pc
  rw [hR.memory h, hR.registers h]

theorem related_fetched (word data : Word) {n : Machine σ} (h : R m n) :
    R (m.fetched word data) (n.fetched word data) := by
  have hpc : m.pc = n.pc := congrArg RegisterFile.pc (hR.registers h)
  unfold Machine.fetched
  rw [hpc]
  exact hR.announce _ (hR.setRegister (by decide) data (hR.setRegister (by decide) word h))

theorem related_poised (i : Instruction) {n : Machine σ} (hpc : m.pc = n.pc)
    (h : R (m.fetched word data) (n.fetched word data)) :
    R (m.poised word data i) (n.poised word data i) := by
  unfold Machine.poised
  rw [hpc]
  exact hR.announce _ (hR.setRegister (by decide) _ h)

theorem agree_conclude (ht : ∀ {m n}, R m n → R m.tick n.tick) {p q : Except Fault Unit × Machine σ}
    (h : Agree R p q) : Agree R (conclude word i p) (conclude word i q) := by
  obtain ⟨r, m⟩ := p
  obtain ⟨_, n⟩ := q
  obtain ⟨rfl, hm⟩ : r = _ ∧ R m n := h
  cases r with
  | ok _ => exact ⟨rfl, ht (hR.announce _ hm)⟩
  | error e => exact ⟨rfl, hm⟩

theorem agree_of_fetched (ht : ∀ {m n}, R m n → R m.tick n.tick) {n : Machine σ}
    (hm : m.Presents word data) (hn : n.Presents word data) (hpc : m.pc = n.pc)
    (h : R (m.fetched word data) (n.fetched word data))
    (hcall : ∀ c m' n', m.Upcoming (.sys c) → R m' n' → m'.console = m.console →
      n'.console = n.console → Agree R ((systemCall S c).run m') ((systemCall S c).run n')) :
    Agree R ((fetchAndExecute S).run m) ((fetchAndExecute S).run n) := by
  cases hd : Instruction.decode word data with
  | none =>
    rw [run_fetchAndExecute_of_none S hm hd, run_fetchAndExecute_of_none S hn hd]
    exact ⟨rfl, h⟩
  | some i =>
    have hi := related_poised hR i hpc h
    rw [run_fetchAndExecute_of_some S hm hd, run_fetchAndExecute_of_some S hn hd]
    refine agree_conclude hR ht ?_
    by_cases hs : ∃ c, i = .sys c
    · obtain ⟨c, rfl⟩ := hs
      exact hcall c _ _ ⟨word, data, hm, hd⟩ hi rfl rfl
    · have hne : ∀ c, i ≠ .sys c := fun c e => hs ⟨c, e⟩
      exact respects_execute hR S (Instruction.canonical_of_decode hd) hne hi

/-- Two machines, related at the latest when they have fetched, go through a cycle alike if they do
so where the cycle is a system call. -/
theorem agree_fetchAndExecute (ht : ∀ {m n}, R m n → R m.tick n.tick) {n : Machine σ}
    (h : Fetching R m n)
    (hcall : ∀ c m' n', m.Upcoming (.sys c) → R m' n' → m'.console = m.console →
      n'.console = n.console → Agree R ((systemCall S c).run m') ((systemCall S c).run n')) :
    Agree R ((fetchAndExecute S).run m) ((fetchAndExecute S).run n) := by
  obtain h | ⟨hpc, word, data, hm, hn, h⟩ := h
  · by_cases hp : ∃ word data, m.Presents word data
    · obtain ⟨word, data, hm⟩ := hp
      have hn := (presents_of_related hR h).mp hm
      have hpc : m.pc = n.pc := congrArg RegisterFile.pc (hR.registers h)
      exact agree_of_fetched S hR ht hm hn hpc (related_fetched hR word data h) hcall
    · have hm : ∀ word data, ¬ m.Presents word data := fun word data e => hp ⟨word, data, e⟩
      have hn : ∀ word data, ¬ n.Presents word data := fun word data e =>
        hm word data ((presents_of_related hR h).mpr e)
      obtain ⟨e, m', hem, -⟩ := run_fetch_of_not_presents hm
      obtain ⟨e', n', hen, -⟩ := run_fetch_of_not_presents hn
      have hf := respects_fetch hR h
      rw [hem, hen] at hf
      rw [run_fetchAndExecute_of_error S hem, run_fetchAndExecute_of_error S hen]
      exact ⟨congrArg Except.error (Except.error.inj hf.1), hf.2⟩
  · exact agree_of_fetched S hR ht hm hn hpc h hcall

end

/-- What instructions keep and system calls turn into something else: when an instruction has been
executed, to be counted, or has ended in a fault, there is the one or the other. -/
theorem fetchAndExecute_cases {P Q : Machine σ → Prop} (hP : Stable P) (weaken : ∀ {n}, P n → Q n)
    (announce : ∀ {n} (news), Q n → Q (n.announce news))
    (hcall : ∀ {n} (c), P n → Q ((systemCall S c).run n).2) (hm : P m) :
    (∃ i n, Q n ∧ (fetchAndExecute S).run m = (.ok i, n.tick)) ∨
      ∃ e n, Q n ∧ (fetchAndExecute S).run m = (.error e, n) := by
  have hR := hP.congruence
  have hmm : m = m ∧ P m := ⟨rfl, hm⟩
  cases m.finds with
  | instruction word data i hp hd =>
    have hr := run_fetchAndExecute_of_some S hp hd
    have hi := related_poised hR i rfl (related_fetched hR word data hmm)
    have hx : Q ((execute S i).run (m.poised word data i)).2 := by
      by_cases hs : ∃ c, i = .sys c
      · obtain ⟨c, rfl⟩ := hs
        exact hcall c hi.2
      · have hne : ∀ c, i ≠ .sys c := fun c e => hs ⟨c, e⟩
        exact weaken (respects_execute hR S (Instruction.canonical_of_decode hd) hne hi).2.2
    rcases he : (execute S i).run (m.poised word data i) with ⟨e | _, n⟩ <;> rw [he] at hr hx
    · exact .inr ⟨e, n, hx, hr⟩
    · exact .inl ⟨i, _, announce _ hx, hr⟩
  | undecodable word data hp hd =>
    have hf := related_fetched hR word data hmm
    exact .inr ⟨_, _, weaken hf.2, run_fetchAndExecute_of_none S hp hd⟩
  | nothing hp =>
    obtain ⟨e, n, he, -⟩ := run_fetch_of_not_presents hp
    have hf := respects_fetch hR hmm
    rw [he] at hf
    exact .inr ⟨e, n, weaken hf.2.2, run_fetchAndExecute_of_error S he⟩

/-- The same at the end of the cycle. -/
theorem cycle_cases {P Q : Machine σ → Prop} (hP : Stable P) (weaken : ∀ {n}, P n → Q n)
    (announce : ∀ {n} (news), Q n → Q (n.announce news))
    (hcall : ∀ {n} (c), P n → Q ((systemCall S c).run n).2) (hm : P m) :
    (∃ i n, Q n ∧ m.cycle S = (.ok i, n.tick)) ∨
      ∃ e n, Q n ∧ m.cycle S = (.error e, n.fail e) := by
  obtain ⟨i, n, hn, hr⟩ | ⟨e, n, hn, hr⟩ := fetchAndExecute_cases S hP weaken announce hcall hm
  · exact .inl ⟨i, n, hn, cycle_of_ok S hr⟩
  · exact .inr ⟨e, n, hn, cycle_of_error S hr⟩

/-- Whatever the answer, the state of the operating system that comes with it is put in place. -/
theorem system_settle (p : (Except Fault Reply × σ) × Machine σ) :
    (settle p).2.system = some p.1.2 := by
  obtain ⟨⟨_ | _ | _ | _, t⟩, n⟩ := p
  · rfl
  · rfl
  · exact Machine.system_setStatus _ .finished
  · exact Machine.system_setStatus _ .waiting

/-- After each system call the operating system is back in place. -/
theorem isSome_system_systemCall (c : Byte) (h : m.system.isSome = true) :
    ((systemCall S c).run m).2.system.isSome = true := by
  obtain ⟨s, hs⟩ := Option.isSome_iff_exists.mp h
  rw [run_systemCall_of_some S c hs, system_settle]
  rfl

/-! ### The operating system between calls

Calls apart, nothing that executes writes the operating system, so what calls keep true of it is
kept by cycles, steps and runs. -/

theorem stable_system (Q : Option σ → Prop) : Stable fun m : Machine σ => Q m.system where
  setRegister _ _ h := h
  setTestFlag _ h := h
  setMemory _ h := h
  announce _ h := h
  print _ h := h
  note _ h := h

section

variable {Q : Option σ → Prop}
  (hcall : ∀ {n : Machine σ} (c), Q n.system → Q ((systemCall S c).run n).2.system)

include hcall

theorem system_cycle (h : Q m.system) : Q (m.cycle S).2.system := by
  obtain ⟨i, n, hn, hc⟩ | ⟨e, n, hn, hc⟩ := cycle_cases S (stable_system Q) id (fun _ h => h)
    hcall h <;> rw [hc]
  · exact hn
  · rw [Machine.system_fail]
    exact hn

theorem system_step (h : Q m.system) : Q (m.step S).2.system :=
  Machine.kept_step S (P := fun n => Q n.system) (fun {n} s h => (n.system_setStatus s).symm ▸ h)
    (system_cycle S hcall) h

theorem system_runScheduled (signals : Machine.Schedule) (limit : Nat) (h : Q m.system) :
    Q (m.runScheduled S signals limit).2.system :=
  Machine.kept_runScheduled S (P := fun n => Q n.system)
    (fun {n} s h => (n.system_setStatus s).symm ▸ h) (system_cycle S hcall) (fun _ h => h) signals
    limit h

end

theorem isSome_system_cycle (h : m.system.isSome = true) : (m.cycle S).2.system.isSome = true :=
  system_cycle S (Q := fun s => s.isSome = true) (isSome_system_systemCall S) h

/-- And after each run. -/
theorem isSome_system_runLimited (limit : Nat) (h : m.system.isSome = true) :
    (m.runLimited S limit).2.system.isSome = true :=
  system_runScheduled S (Q := fun s => s.isSome = true) (isSome_system_systemCall S)
    Machine.undisturbed limit h

end Action
end Minicomputer
