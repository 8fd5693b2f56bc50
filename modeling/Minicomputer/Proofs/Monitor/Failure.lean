import Minicomputer.Proofs.Machine.Failure
import Minicomputer.Proofs.Monitor.Lifecycle

/-!
# Faults under the monitor

A step that faults sets the error flag and keeps the fault, and the machine is otherwise the one
that has fetched the instruction. Instructions that push have moved their pointer, a copy may be
there in part, and a system call leaves the registers alone and has taken a line of input at most.
-/

set_option autoImplicit false

namespace Minicomputer

namespace RegisterFile

theorem testFlag_setErrorFlag (f : RegisterFile) :
    (f.setErrorFlag true).testFlag = f.testFlag := by
  unfold testFlag
  rw [get_flags_setErrorFlag, if_pos rfl]
  have hbit : (f.get .flags ||| 2) &&& 1 = f.get .flags &&& 1 := by
    apply UInt16.toNat_inj.mp
    rw [UInt16.toNat_and, UInt16.toNat_or, UInt16.toNat_and, Nat.and_or_distrib_right]
    exact Nat.or_zero _
  rw [hbit]

theorem testFlag_of_fault {f g : RegisterFile} (h : f.get .flags = g.get .flags) :
    (f.setErrorFlag true).testFlag = g.testFlag := by
  rw [testFlag_setErrorFlag]
  unfold testFlag
  rw [h]

/-- The same registers, but for those of a fetch and the flags. -/
def Agrees (f g : RegisterFile) : Prop :=
  ∀ r, r ≠ .ir → r ≠ .dr → r ≠ .flags → f.get r = g.get r

theorem agrees_setErrorFlag (f : RegisterFile) (value : Bool) :
    (f.setErrorFlag value).Agrees f :=
  fun _ _ _ hr => get_set_of_ne f _ hr.symm

theorem agrees_set_ir (f : RegisterFile) (w : Word) : (f.set .ir w).Agrees f :=
  fun _ hr _ _ => get_set_of_ne f w hr.symm

theorem agrees_set_dr (f : RegisterFile) (w : Word) : (f.set .dr w).Agrees f :=
  fun _ _ hr _ => get_set_of_ne f w hr.symm

theorem Agrees.trans {f g h : RegisterFile} (hf : f.Agrees g) (hg : g.Agrees h) : f.Agrees h :=
  fun r hi hd hl => (hf r hi hd hl).trans (hg r hi hd hl)

theorem Agrees.set {f g : RegisterFile} (h : f.Agrees g) (r : Register) (w : Word) :
    (f.set r w).Agrees (g.set r w) := by
  intro s hi hd hl
  rw [get_set, get_set, h s hi hd hl]

end RegisterFile

theorem Instruction.readable_of_pushing {i : Instruction} {stack : Register} {d : Option Word}
    (hc : i.Canonical) (h : i.pushing? = some (stack, d)) : stack.isReadable = true := by
  unfold pushing? at h
  split at h <;> cases h
  · exact hc.2
  · exact hc
  · exact hc
  · exact hc

/-- The registers when the program counter has moved on. -/
def Machine.advanced {σ : Type} (m : Machine σ) (i : Instruction) : RegisterFile :=
  m.registers.set .pc (m.pc + UInt16.ofNat i.size)

namespace Monitor

open Minicomputer.Machine Minicomputer.Action

variable {σ : Type}

/-! ### System calls -/

theorem looks_address (r : Register) : Looks (address r : Action σ Int) := fun _ => rfl

theorem looks_count (r : Register) : Looks (count r : Action σ Nat) := fun _ => rfl

theorem looks_loadText (a : Int) : Looks (loadText a : Action σ String) := fun m =>
  congrArg Prod.snd (run_ofMemory (m.memory.readText a) m)

theorem succeeds_answer (w : Word) : Succeeds (answer w : Action σ Reply) := fun _ => ⟨_, _, rfl⟩

theorem succeeds_answerLine {k : String → Action σ Reply} (hk : ∀ line, Succeeds (k line)) :
    Succeeds (answerLine k) := by
  intro m
  cases hl : m.console.readLine? with
  | none => exact ⟨_, _, run_answerLine_of_none k hl⟩
  | some p =>
    obtain ⟨line, console⟩ := p
    rw [run_answerLine_of_some k hl]
    exact hk line _

theorem looks_conversion {c : Char} {convert : Word → Action σ String}
    (h : format.conversion? c = some convert) (w : Word) : Looks (convert w) := by
  unfold format.conversion? at h
  split at h <;> simp only [Option.some.injEq, reduceCtorEq] at h <;> subst h
  · exact fun _ => rfl
  · exact fun _ => rfl
  · exact looks_loadText _

theorem looks_format (arguments : List Register) (s : List Char) :
    Looks (format arguments s : Action σ (List Char)) := by
  fun_induction format arguments s with
  | case1 => exact fun _ => rfl
  | case2 arguments s ih => exact ih.bind fun _ _ => rfl
  | case3 c s hc convert r rest hv ih =>
    exact (looks_register r).bind fun w => (looks_conversion hv w).bind fun _ =>
      ih.bind fun _ _ => rfl
  | case4 arguments c s hc h ih => exact ih.bind fun _ _ => rfl
  | case5 arguments c s h₁ h₂ ih => exact ih.bind fun _ _ => rfl

/-- Calls that store nothing look first, and change the machine when they cannot fail any more. -/
theorem atomic_serve (clock : Nat) {c : SystemCall} (hline : c ≠ .rstr) (hcopy : c ≠ .memcpy)
    (herror : c ≠ .error) : Atomic (serve clock c : Action σ Reply) := by
  cases c with
  | rstr | memcpy | error => contradiction
  | exit | sleep => exact Succeeds.atomic fun _ => ⟨_, _, rfl⟩
  | rint => exact (succeeds_answerLine fun _ => succeeds_answer _).atomic
  | wint | wchr => exact Succeeds.atomic fun _ => ⟨_, _, rfl⟩
  | rchr =>
    intro m e n h
    cases hc : m.console.readChar? with
    | none =>
      rw [run_rchr_of_none clock hc] at h
      cases h
    | some p =>
      rw [run_rchr_of_some clock hc] at h
      cases h
  | wstr =>
    exact (looks_address _).before fun _ => (looks_loadText _).before fun _ =>
      Succeeds.atomic fun _ => ⟨_, _, rfl⟩
  | printf =>
    exact (looks_address _).before fun _ => (looks_loadText _).before fun _ =>
      (looks_format _ _).before fun _ => Succeeds.atomic fun _ => ⟨_, _, rfl⟩
  | atoi =>
    exact (looks_address _).before fun _ => (looks_loadText _).before fun _ =>
      (succeeds_answer _).atomic
  | timer => exact (succeeds_answer _).atomic
  | joystick => exact (looks_register _).before fun _ => (succeeds_answer _).atomic
  | _ => exact (succeeds_answer _).atomic

theorem spares_storeBytes (a : Int) (bs : List Byte) :
    Spares (storeBytes a bs : Action σ Unit) := by
  induction bs generalizing a with
  | nil => exact fun _ => ⟨rfl, rfl⟩
  | cons b bs ih => exact (spares_storeByte a b).bind fun _ => ih _

theorem spares_memcpy (clock : Nat) : Spares (serve clock .memcpy : Action σ Reply) :=
  (looks_address _).spares.bind fun _ => (looks_address _).spares.bind fun _ =>
    (looks_count _).spares.bind fun _ => (spares_copy _ _ 0 _).bind fun _ _ => ⟨rfl, rfl⟩

theorem spares_error (clock : Nat) : Spares (serve clock .error : Action σ Reply) :=
  (looks_address _).spares.bind fun _ => (looks_loadText _).spares.bind fun message =>
    Spares.bind (fun _ => ⟨rfl, rfl⟩ : Spares (print message)) fun _ _ => ⟨rfl, rfl⟩

variable {m n : Machine σ} {e : Fault}

theorem registers_of_keepLine {line : String} (h : (keepLine line).run m = (.error e, n)) :
    n.registers = m.registers := by
  have hpointer : (address .a0).run m = (.ok ((m.registers.get .a0).toNat : Int), m) := rfl
  have hcount : (count .a1).run m = (.ok (m.registers.get .a1).signed.toNat, m) := rfl
  rw [keepLine, run_bind_of_ok hpointer, run_bind_of_ok hcount] at h
  obtain h | ⟨_, k, -, h⟩ := run_bind_eq_error h
  · have hspares := spares_storeBytes (m.registers.get .a0).toNat
      ((bytesOfText line).take (m.registers.get .a1).signed.toNat) m
    rw [h] at hspares
    exact hspares.1
  · cases h

/-- A call that faults has written no register, and only the call that stores a line has taken one. -/
theorem serve_of_error {clock : Nat} {c : SystemCall}
    (h : (serve clock c).run m = (.error e, n)) :
    n.registers = m.registers ∧ (c ≠ .rstr → n.console.input = m.console.input) := by
  by_cases hline : c = .rstr
  · subst hline
    refine ⟨?_, fun hc => absurd rfl hc⟩
    cases hl : m.console.readLine? with
    | none =>
      change (answerLine keepLine).run m = _ at h
      rw [run_answerLine_of_none _ hl] at h
      cases h
    | some p =>
      change (answerLine keepLine).run m = _ at h
      rw [run_answerLine_of_some _ hl] at h
      have hregisters := registers_of_keepLine h
      exact hregisters
  by_cases hcopy : c = .memcpy
  · subst hcopy
    have hm := spares_memcpy clock m
    rw [h] at hm
    exact ⟨hm.1, fun _ => hm.2⟩
  by_cases herror : c = .error
  · subst herror
    have hm := spares_error clock m
    rw [h] at hm
    exact ⟨hm.1, fun _ => hm.2⟩
  obtain rfl := atomic_serve clock hline hcopy herror h
  exact ⟨rfl, fun _ => rfl⟩

theorem attend_of_error {selector : Byte} {s : Monitor}
    (h : (attend selector s).run m = (.error e, n)) :
    n.registers = m.registers ∧
      (SystemCall.ofSelector? selector ≠ some .rstr → n.console.input = m.console.input) := by
  obtain ⟨fault, ha⟩ | ha | ⟨c, hs, ha⟩ := attend_cases (σ := σ) selector s <;>
    rw [ha] at h
  · cases h
    exact ⟨rfl, fun _ => rfl⟩
  · cases h
  · obtain h | ⟨_, k, -, h⟩ := run_bind_eq_error h
    · obtain ⟨hregisters, hinput⟩ := serve_of_error h
      exact ⟨hregisters, fun hne => hinput fun e => hne (hs.trans (congrArg some e))⟩
    · cases h

theorem systemCall_of_error {m n : Machine Monitor} {c : Byte}
    (h : (systemCall system c).run m = (.error e, n)) :
    n.registers = m.registers ∧
      (SystemCall.ofSelector? c ≠ some .rstr → n.console.input = m.console.input) := by
  cases hs : m.system with
  | none =>
    rw [run_systemCall_of_none system c hs] at h
    cases h
    exact ⟨rfl, fun _ => rfl⟩
  | some s =>
    rw [run_systemCall_eq c hs] at h
    rcases ha : (attend c s).run { m with system := none } with ⟨e' | ⟨_ | _ | _, g⟩, k⟩ <;>
      rw [ha] at h <;> cases h
    have hattend := attend_of_error ha
    exact hattend

/-! ### Execution -/

/-- What has become of a machine on which an instruction faults. -/
inductive Faulted (m : Machine Monitor) : Instruction → Machine Monitor → Prop where
  | unchanged {i : Instruction} (hpush : i.pushing? = none) : Faulted m i m
  | pushed {i : Instruction} {stack : Register} {d : Option Word}
      (hpush : i.pushing? = some (stack, d)) (hd : m.memory.Offers (m.registers.get stack) d) :
      Faulted m i (m.setRegister stack (m.registers.get stack - 2))
  | empty {i : Instruction} {stack : Register} {d : Option Word}
      (hpush : i.pushing? = some (stack, d)) (hd : ¬ m.memory.Offers (m.registers.get stack) d) :
      Faulted m i m
  | copied {n : Machine Monitor} (source target : Register) (size : Word)
      (hregisters : n.registers = m.registers) (hinput : n.console.input = m.console.input) :
      Faulted m (.mcp source target size) n
  | called {n : Machine Monitor} (c : Byte) (hregisters : n.registers = m.registers)
      (hinput : SystemCall.ofSelector? c ≠ some .rstr → n.console.input = m.console.input) :
      Faulted m (.sys c) n

variable {m n : Machine Monitor} {e : Fault} {i : Instruction}

theorem faulted_of_error (h : (execute system i).run m = (.error e, n)) : Faulted m i n := by
  cases hpush : i.pushing? with
  | some p =>
    obtain ⟨stack, d⟩ := p
    obtain ⟨hd, rfl⟩ | ⟨hd, rfl⟩ := run_execute_of_pushing system hpush h
    · exact .pushed hpush hd
    · exact .empty hpush hd
  | none =>
    by_cases hcopy : ∃ source target size, i = .mcp source target size
    · obtain ⟨source, target, size, rfl⟩ := hcopy
      have hm := spares_execute_mcp system source target size m
      rw [h] at hm
      exact .copied source target size hm.1 hm.2
    by_cases hcall : ∃ c, i = .sys c
    · obtain ⟨c, rfl⟩ := hcall
      obtain ⟨hregisters, hinput⟩ := systemCall_of_error h
      exact .called c hregisters hinput
    obtain rfl := atomic_execute system hpush
      (fun source target size e => hcopy ⟨source, target, size, e⟩) (fun c e => hcall ⟨c, e⟩) h
    exact .unchanged hpush

theorem Faulted.input (h : Faulted m i n)
    (hi : ∀ c, i = .sys c → SystemCall.ofSelector? c ≠ some .rstr) :
    n.console.input = m.console.input := by
  cases h with
  | unchanged | pushed | empty => rfl
  | copied source target size hregisters hinput => exact hinput
  | called c hregisters hinput => exact hinput (hi c rfl)

theorem Faulted.memory (h : Faulted m i n) (hcopy : ∀ source target size, i ≠ .mcp source target size)
    (hcall : ∀ c, i ≠ .sys c) : n.memory = m.memory := by
  cases h with
  | unchanged | pushed | empty => rfl
  | copied source target size => exact absurd rfl (hcopy source target size)
  | called c => exact absurd rfl (hcall c)

theorem Faulted.registers_of_not_pushing (h : Faulted m i n) (hpush : i.pushing? = none) :
    n.registers = m.registers := by
  cases h with
  | unchanged => rfl
  | pushed hp | empty hp => exact absurd (hpush.symm.trans hp) nofun
  | copied source target size hregisters => exact hregisters
  | called c hregisters => exact hregisters

/-- The pointer has moved if there was a word to push. -/
theorem Faulted.registers_of_offers {stack : Register} {d : Option Word} (h : Faulted m i n)
    (hpush : i.pushing? = some (stack, d)) (hd : m.memory.Offers (m.registers.get stack) d) :
    n.registers = m.registers.set stack (m.registers.get stack - 2) := by
  cases h with
  | unchanged hp => exact absurd (hp.symm.trans hpush) nofun
  | pushed hp =>
    cases hp.symm.trans hpush
    rfl
  | empty hp hd' =>
    cases hp.symm.trans hpush
    exact absurd hd hd'
  | copied => cases hpush
  | called => cases hpush

theorem Faulted.registers_of_not_offers {stack : Register} {d : Option Word} (h : Faulted m i n)
    (hpush : i.pushing? = some (stack, d)) (hd : ¬ m.memory.Offers (m.registers.get stack) d) :
    n.registers = m.registers := by
  cases h with
  | unchanged | empty => rfl
  | pushed hp hd' =>
    cases hp.symm.trans hpush
    exact absurd hd' hd
  | copied source target size hregisters => exact hregisters
  | called c hregisters => exact hregisters

theorem Faulted.flags (h : Faulted m i n) (hc : i.Canonical) :
    n.registers.get .flags = m.registers.get .flags := by
  cases h with
  | unchanged | empty => rfl
  | pushed hpush =>
    apply RegisterFile.get_set_of_ne
    rintro rfl
    exact absurd (Instruction.readable_of_pushing hc hpush) nofun
  | copied source target size hregisters => rw [hregisters]
  | called c hregisters => rw [hregisters]

/-! ### Steps -/

theorem agrees_poised (m : Machine Monitor) (word data : Word) (i : Instruction) :
    (m.poised word data i).registers.Agrees (m.advanced i) :=
  (((RegisterFile.agrees_set_dr _ data).trans (RegisterFile.agrees_set_ir _ word))).set .pc _

theorem flags_poised (m : Machine Monitor) (word data : Word) (i : Instruction) :
    (m.poised word data i).registers.get .flags = m.registers.get .flags :=
  (RegisterFile.get_set_of_ne _ _ (by decide)).trans
    ((RegisterFile.get_set_of_ne _ _ (by decide)).trans (RegisterFile.get_set_of_ne _ _ (by decide)))

/-- What a fault makes of a machine and of the instruction that was to be executed next. -/
structure Stopped (m : Machine Monitor) (e : Fault) (n : Machine Monitor) : Prop where
  status : n.status = .permanentError
  fault : n.fault = some e
  errorFlag : n.registers.errorFlag = true
  testFlag : n.registers.testFlag = m.registers.testFlag
  cycles : n.cycles = m.cycles
  input : ¬ m.Calls .rstr → n.console.input = m.console.input
  /-- Where no instruction was found, the program counter has not moved. -/
  undecoded : (∀ i, ¬ m.Upcoming i) → n.memory = m.memory ∧ n.registers.Agrees m.registers
  /-- A copy and a call are the only ones that may have written before they fail. -/
  memory : ∀ i, m.Upcoming i → (∀ source target size, i ≠ .mcp source target size) →
    (∀ c, i ≠ .sys c) → n.memory = m.memory
  registers : ∀ i, m.Upcoming i → i.pushing? = none → n.registers.Agrees (m.advanced i)
  /-- The pointer moves with the word that is pushed, which two instructions have to read. -/
  pushed : ∀ i stack d, m.Upcoming i → i.pushing? = some (stack, d) →
    m.memory.Offers ((m.advanced i).get stack) d →
      n.registers.Agrees ((m.advanced i).set stack ((m.advanced i).get stack - 2))
  unpushed : ∀ i stack d, m.Upcoming i → i.pushing? = some (stack, d) →
    ¬ m.memory.Offers ((m.advanced i).get stack) d → n.registers.Agrees (m.advanced i)

theorem upcoming_unique {j : Instruction} {word data : Word} (hp : m.Presents word data)
    (hd : Instruction.decode word data = some i) (hj : m.Upcoming j) : j = i := by
  obtain ⟨word', data', hp', hd'⟩ := hj
  obtain ⟨rfl, rfl⟩ := presents_unique hp hp'
  exact Option.some.inj (hd'.symm.trans hd)

/-- A fetch that finds no instruction has written its own registers at most. -/
theorem stopped_of_undecoded (hnone : ∀ i, ¬ m.Upcoming i) (hf : m.Frame n)
    (hn : n = m ∨ (∃ word, n = m.setRegister .ir word) ∨ ∃ word data, n = m.fetched word data) :
    Stopped m e (n.fail e) := by
  have hn : n.registers.get .flags = m.registers.get .flags ∧ n.registers.Agrees m.registers ∧
      n.memory = m.memory ∧ n.console = m.console := by
    obtain rfl | ⟨word, rfl⟩ | ⟨word, data, rfl⟩ := hn
    · exact ⟨rfl, fun _ _ _ _ => rfl, rfl, rfl⟩
    · exact ⟨RegisterFile.get_set_of_ne _ _ (by decide), RegisterFile.agrees_set_ir _ word, rfl, rfl⟩
    · exact ⟨(RegisterFile.get_set_of_ne _ _ (by decide)).trans
        (RegisterFile.get_set_of_ne _ _ (by decide)),
        (RegisterFile.agrees_set_dr _ data).trans (RegisterFile.agrees_set_ir _ word), rfl, rfl⟩
  obtain ⟨hflags, hagrees, hmemory, hconsole⟩ := hn
  rw [fail_eq]
  exact {
    status := rfl
    fault := rfl
    errorFlag := RegisterFile.errorFlag_setErrorFlag _
    testFlag := RegisterFile.testFlag_of_fault hflags
    cycles := hf.cycles
    input := fun _ => congrArg Console.input hconsole
    undecoded := fun _ => ⟨hmemory, (RegisterFile.agrees_setErrorFlag _ _).trans hagrees⟩
    memory := fun i hi => absurd hi (hnone i)
    registers := fun i hi => absurd hi (hnone i)
    pushed := fun i _ _ hi => absurd hi (hnone i)
    unpushed := fun i _ _ hi => absurd hi (hnone i) }

/-- The instruction is the one that was found, and faults where its words have been fetched. -/
theorem stopped_of_faulted {word data : Word} (hp : m.Presents word data)
    (hd : Instruction.decode word data = some i) (hf : m.Frame n)
    (hn : Faulted (m.poised word data i) i n) : Stopped m e (n.fail e) := by
  have hc := Instruction.canonical_of_decode hd
  have hagrees := agrees_poised m word data i
  have htop {stack : Register} {d : Option Word} (hpush : i.pushing? = some (stack, d)) :
      (m.poised word data i).registers.get stack = (m.advanced i).get stack := by
    have hr := Instruction.readable_of_pushing hc hpush
    apply hagrees <;> rintro rfl <;> cases hr
  have hupcoming : m.Upcoming i := ⟨word, data, hp, hd⟩
  rw [fail_eq]
  exact {
    status := rfl
    fault := rfl
    errorFlag := RegisterFile.errorFlag_setErrorFlag _
    testFlag := RegisterFile.testFlag_of_fault ((hn.flags hc).trans (flags_poised m word data i))
    cycles := hf.cycles
    input := fun hline => hn.input fun c hi hcall => hline ⟨c, hi ▸ hupcoming, hcall⟩
    undecoded := fun hnone => absurd hupcoming (hnone i)
    memory := by
      intro j hj
      obtain rfl := upcoming_unique hp hd hj
      exact hn.memory
    registers := by
      intro j hj hpush
      obtain rfl := upcoming_unique hp hd hj
      refine (RegisterFile.agrees_setErrorFlag _ _).trans ?_
      rw [hn.registers_of_not_pushing hpush]
      exact hagrees
    pushed := by
      intro j stack d hj hpush hoffers
      obtain rfl := upcoming_unique hp hd hj
      refine (RegisterFile.agrees_setErrorFlag _ _).trans ?_
      rw [← htop hpush] at hoffers ⊢
      rw [hn.registers_of_offers hpush hoffers]
      exact hagrees.set stack _
    unpushed := by
      intro j stack d hj hpush hoffers
      obtain rfl := upcoming_unique hp hd hj
      refine (RegisterFile.agrees_setErrorFlag _ _).trans ?_
      rw [← htop hpush] at hoffers
      rw [hn.registers_of_not_offers hpush hoffers]
      exact hagrees }

theorem stopped_of_cycle (h : m.cycle system = (.error e, n)) : Stopped m e n := by
  obtain ⟨i, k, -, hr⟩ | ⟨e', k, hf, hr⟩ := fetchAndExecute_cases m
  · rw [cycle_of_ok system hr] at h
    cases h
  · rw [cycle_of_error system hr] at h
    cases h
    obtain ⟨hnone, hk⟩ | ⟨word, data, i, hp, hd, hx⟩ := fetchAndExecute_of_error system hr
    · exact stopped_of_undecoded hnone hf hk
    · exact stopped_of_faulted hp hd hf (faulted_of_error hx)

/-- A step that faults leaves nothing behind but the fault, what was fetched, a stack pointer that
was to move, and what a copy or a system call has done to the memory. -/
theorem stopped_of_step (hm : m.status.isResumable = true)
    (h : m.step system = (.error e, n)) : Stopped m e n := by
  unfold Machine.step at h
  rw [if_pos hm] at h
  have hs := stopped_of_cycle h
  rw [setStatus_eq] at hs
  exact ⟨hs.1, hs.2, hs.3, hs.4, hs.5, hs.6, hs.7, hs.8, hs.9, hs.10, hs.11⟩

/-- The stack pointer is zero, where there is a word to be pushed again but no room for it. -/
def lowStack : Machine Monitor :=
  { Machine.new (ofSeed 1) with
    memory := Memory.zero.place 0 (Instruction.rearrange .dup .sp).encode
    registers := initialRegisters.set .sp 0 }

/-- The pointer has wrapped to an address that memory does not have. -/
theorem stopped_of_step_lowStack :
    lowStack.status.isResumable = true ∧ ∃ n,
      lowStack.step system = (.error (.memory (.outOfRange 65535)), n) ∧
        n.status = .permanentError ∧ n.pc = 2 ∧ n.registers.get .sp = 65534 := by
  have hm : lowStack.status.isResumable = true := rfl
  have hstep : (lowStack.step system).1 = .error (.memory (.outOfRange 65535)) := by decide +kernel
  rcases hn : lowStack.step system with ⟨r, n⟩
  rw [hn] at hstep
  obtain rfl : r = _ := hstep
  have hstopped := stopped_of_step hm hn
  have hword : lowStack.memory.readWord 0 = .ok 0x220D := by decide +kernel
  have hnext : lowStack.Upcoming (.rearrange .dup .sp) := ⟨0x220D, 0, ⟨hword, rfl⟩, rfl⟩
  have hagrees := hstopped.pushed _ .sp (some 0) hnext rfl ⟨0x220D, hword⟩
  refine ⟨hm, n, rfl, hstopped.status, ?_, ?_⟩
  · exact hagrees .pc (by decide) (by decide) (by decide)
  · exact hagrees .sp (by decide) (by decide) (by decide)

end Monitor
end Minicomputer
