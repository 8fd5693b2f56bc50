import Minicomputer.Proofs.Machine.Report
import Minicomputer.Proofs.Monitor.Lifecycle

/-!
# What listeners learn of steps

Under the monitor a listener that writes down what it is told has, after each step that succeeds,
the registers and the memory of the machine. After a fault it has all but one bit of them: the error
flag is set and nobody is told.
-/

set_option autoImplicit false

namespace Minicomputer

namespace Console

theorem output_of_readLine? {c d : Console} {line : String} (h : c.readLine? = some (line, d)) :
    d.output = c.output := by
  unfold readLine? at h
  split at h
  · cases h
  · cases h
    rfl

theorem output_of_readChar? {c d : Console} {x : Char} (h : c.readChar? = some (x, d)) :
    d.output = c.output := by
  unfold readChar? at h
  split at h
  · cases h
  · cases h
    rfl

end Console

namespace RegisterFile

theorem set_get_self (f : RegisterFile) (r : Register) : f.set r (f.get r) = f := by
  unfold set get
  exact RegisterFile.ext (Vector.set_getElem_self ..)

theorem setErrorFlag_eq_self_iff (f : RegisterFile) :
    f.setErrorFlag true = f ↔ f.errorFlag = true := by
  constructor
  · intro h
    rw [← h]
    exact errorFlag_setErrorFlag f
  · intro h
    have hbit := (errorFlag_iff f).mp h
    have hflags : f.get .flags ||| 2 = f.get .flags := by
      apply UInt16.toNat_inj.mp
      rw [UInt16.toNat_or]
      show (f.get .flags).toNat ||| 2 ^ 1 = _
      apply Nat.eq_of_testBit_eq
      intro i
      rw [Nat.testBit_or, Nat.testBit_two_pow]
      by_cases hi : 1 = i
      · subst hi
        have hset : (f.get .flags).toNat.testBit 1 = true := by
          rw [Nat.testBit_eq_decide_div_mod_eq]
          exact decide_eq_true hbit
        rw [hset]
        rfl
      · rw [decide_eq_false hi, Bool.or_false]
    show f.set .flags (f.get .flags ||| 2) = f
    rw [hflags, set_get_self]

end RegisterFile

namespace Machine

theorem Frame.errorFlag {σ : Type} {m n : Machine σ} (h : m.Frame n) :
    n.registers.errorFlag = m.registers.errorFlag := by
  rw [Bool.eq_iff_iff, RegisterFile.errorFlag_iff, RegisterFile.errorFlag_iff, h.flags]

/-- The machine after some steps, whether they succeed or not. -/
def stepped {σ : Type} (S : System σ) (m : Machine σ) : Nat → Machine σ
  | 0 => m
  | k + 1 => ((m.stepped S k).step S).2

/-- Of a fault a listener hears no more than that the status changes. -/
theorem heard_fail {σ : Type} (m : Machine σ) (e : Fault) {l : Nat}
    (hl : l ∈ m.audience.listeners) (hn : m.audience.listeners.Nodup) :
    (m.fail e).heard l = m.heard l ++ statusNews m.status .permanentError :=
  (told_setStatus { m with registers := m.registers.setErrorFlag true, fault := some e }
    .permanentError).heard l hl hn

theorem replica_eq_fail_iff {σ : Type} (m : Machine σ) (e : Fault) :
    m.replica = (m.fail e).replica ↔ m.registers.errorFlag = true := by
  rw [← RegisterFile.setErrorFlag_eq_self_iff, fail_eq]
  constructor
  · intro h
    exact (congrArg Replica.registers h).symm
  · intro h
    exact congrArg (Replica.mk · m.memory) h.symm

/-- What a listener has heard since the machine was another one. -/
def heardSince {σ : Type} (n m : Machine σ) (listener : Nat) : List Announcement :=
  (n.heard listener).drop (m.heard listener).length

theorem heardSince_of_heard {σ : Type} {m n : Machine σ} {l : Nat} {news : List Announcement}
    (h : n.heard l = m.heard l ++ news) : n.heardSince m l = news := by
  unfold heardSince
  rw [h, List.drop_left]

end Machine

namespace Monitor

open Minicomputer.Action Minicomputer.Machine Announcement

section

variable {σ : Type}

/-- What is taken from the input is not told, and is nothing that a listener keeps. -/
theorem reports_answerLine {k : String → Action σ Reply} (hk : ∀ line, Reports (k line)) :
    Reports (answerLine k) := by
  intro m
  cases h : m.console.readLine? with
  | none =>
    rw [run_answerLine_of_none k h]
    exact reported_refl m
  | some p =>
    obtain ⟨line, console⟩ := p
    have hread : m.Told [] { m with console } :=
      told_nil rfl rfl rfl rfl (Console.output_of_readLine? h)
    rw [run_answerLine_of_some k h]
    exact Reported.trans ⟨[], rfl, hread⟩ (hk line _)

theorem reports_serve (clock : Nat) (c : SystemCall) :
    Reports (serve clock c : Action σ Reply) := by
  cases hc : c.isReading with
  | false => exact (composed_serve clock hc).reports
  | true =>
    cases c with
    | rint => exact reports_answerLine fun _ => (composed_answer _).reports
    | rstr => exact reports_answerLine fun line => (composed_keepLine line).reports
    | rchr =>
      intro m
      cases h : m.console.readChar? with
      | none =>
        rw [run_rchr_of_none clock h]
        exact reported_refl m
      | some p =>
        obtain ⟨x, console⟩ := p
        have hread : m.Told [] { m with console } :=
          told_nil rfl rfl rfl rfl (Console.output_of_readChar? h)
        rw [run_rchr_of_some clock h]
        exact Reported.trans ⟨[], rfl, hread⟩ ((composed_answer _).reports _)
    | _ => cases hc

theorem reports_attend (selector : Byte) (s : Monitor) :
    Reports (attend selector s : Action σ (Reply × Generator)) := by
  obtain ⟨e, ha⟩ | ha | ⟨c, -, ha⟩ := attend_cases selector s <;> rw [ha]
  · exact reported_refl
  · exact (composed_random _).reports
  · exact (reports_serve _ c).bind fun _ => reported_refl

end

variable {m n : Machine Monitor}

theorem reported_setSystem (m : Machine Monitor) (system : Option Monitor) :
    m.Reported { m with system } :=
  ⟨[], rfl, told_nil rfl rfl rfl rfl rfl⟩

theorem reported_settle (s : Monitor) (r : Except Fault (Reply × Generator)) (n : Machine Monitor) :
    n.Reported (settle (answered s (r, n))).2 := by
  cases r with
  | error e => exact reported_setSystem n _
  | ok p =>
    obtain ⟨reply, generator⟩ := p
    have hs := reported_setSystem n (some { s with generator })
    cases reply with
    | proceed => exact hs
    | exit => exact hs.trans (reported_setStatus _ _)
    | needsInput =>
      have hpc := hs.trans ⟨_, rfl, told_setRegister _ .pc (n.pc - 2)⟩
      exact hpc.trans (reported_setStatus _ _)

theorem reports_systemCall (c : Byte) : Reports (systemCall system c) := by
  intro m
  cases h : m.system with
  | none =>
    rw [run_systemCall_of_none system c h]
    exact reported_refl m
  | some s =>
    rw [run_systemCall_eq c h]
    have hcall := reports_attend (σ := Monitor) c s { m with system := none }
    exact ((reported_setSystem m none).trans hcall).trans (reported_settle s _ _)

/-! ### Steps -/

/-- All that a step does is told, with the marks of one cycle where it succeeds, and up to the fault
where it does not. -/
theorem step_told (hm : m.status.isResumable = true) :
    (∃ i n news word, m.step system = (.ok i, n) ∧ m.Told news n ∧
        m.memory.readWord m.pc.toNat = .ok word ∧ marks news = cycleMarks m.pc word) ∨
      ∃ e n news, m.step system = (.error e, n.fail e) ∧ m.Told news n ∧
        n.registers.errorFlag = m.registers.errorFlag := by
  have hstart := told_setStatus m .executing
  have hpc : (m.setStatus .executing).pc = m.pc :=
    congrArg RegisterFile.pc (registers_setStatus ..)
  rw [step_of_isResumable system hm]
  obtain ⟨i, n, word, news, hr, hnews, hword, hmarks⟩ | ⟨e, n, news, hr, hnews⟩ :=
    fetchAndExecute_told system reports_systemCall (m.setStatus .executing)
  · rw [hpc, memory_setStatus] at hword
    refine .inl ⟨i, n, _, word, cycle_of_ok system hr, hstart.trans hnews, hword, ?_⟩
    rw [marks_append, marks_statusNews, hmarks, hpc, List.nil_append]
  · refine .inr ⟨e, n, _, cycle_of_error system hr, hstart.trans hnews, ?_⟩
    obtain ⟨i, k, -, hk⟩ | ⟨e', k, hframe, hk⟩ := fetchAndExecute_cases (m.setStatus .executing)
    · rw [hr] at hk
      cases hk
    · rw [hr] at hk
      cases hk
      rw [hframe.errorFlag, registers_setStatus]

theorem told_step (h : (m.step system).1.isOk = true) :
    ∃ news word, m.Told news (m.step system).2 ∧ m.memory.readWord m.pc.toNat = .ok word ∧
      marks news = cycleMarks m.pc word := by
  cases hm : m.status.isResumable with
  | false =>
    rw [step_of_not_isResumable system hm] at h
    cases h
  | true =>
    obtain ⟨i, n, news, word, hs, hnews⟩ | ⟨e, n, news, hs, -⟩ := step_told hm
    · rw [hs]
      exact ⟨news, word, hnews⟩
    · rw [hs] at h
      cases h

theorem told_stepped {k : Nat} (h : ∀ i < k, ((m.stepped system i).step system).1.isOk = true) :
    ∃ news, m.Told news (m.stepped system k) := by
  induction k with
  | zero => exact ⟨[], told_refl m⟩
  | succ k ih =>
    obtain ⟨news, hnews⟩ := ih fun i hi => h i (Nat.lt_succ_of_lt hi)
    obtain ⟨more, word, hmore, -⟩ := told_step (h k (Nat.lt_succ_self k))
    exact ⟨news ++ more, hnews.trans hmore⟩

/-- A listener that keeps a copy of the machine is in step with it as long as steps succeed. The
changes of status that it hears lead to the status of the machine, the texts printed are what the
console has gained, and each step is marked by the fetch of a word and by the start and the end of
its execution. -/
theorem heard_of_steps {l : Nat} (ha : m.audience.Numbered) (hl : l ∈ m.audience.listeners)
    {k : Nat} (hok : ∀ i < k, ((m.stepped system i).step system).1.isOk = true) :
    (∀ i ≤ k,
      let n := m.stepped system i
      let news := n.heardSince m l
      n.heard l = m.heard l ++ news ∧ m.replica.listen news = n.replica ∧
        m.status.Leads (news.filterMap change?) n.status ∧
        n.console.output = m.console.output ++ printedText news) ∧
      ∀ i < k, ∃ word,
        (m.stepped system i).memory.readWord (m.stepped system i).pc.toNat = .ok word ∧
          marks ((m.stepped system (i + 1)).heardSince (m.stepped system i) l) =
            cycleMarks (m.stepped system i).pc word := by
  constructor
  · intro i hi
    obtain ⟨news, hnews⟩ := told_stepped fun j hj => hok j (Nat.lt_of_lt_of_le hj hi)
    have hheard := hnews.heard l hl ha.nodup
    dsimp only
    rw [heardSince_of_heard hheard]
    exact ⟨hheard, hnews.replica, hnews.status, hnews.output⟩
  · intro i hi
    obtain ⟨before, hbefore⟩ := told_stepped fun j hj => hok j (Nat.lt_trans hj hi)
    obtain ⟨news, word, hnews, hword, hmarks⟩ := told_step (hok i hi)
    have hheard := hnews.heard l (hbefore.listeners ▸ hl) (hbefore.numbered ha).nodup
    refine ⟨word, hword, ?_⟩
    show marks (((m.stepped system i).step system).2.heardSince _ l) = _
    rw [heardSince_of_heard hheard, hmarks]

/-- A machine with a program and one listener. -/
def overheard (code : List Byte) : Machine Monitor :=
  let m := ((Machine.new (.ofSeed 1)).load system (.plain code [] "")).2
  { m with audience := m.audience.subscribe.2 }

theorem numbered_overheard (code : List Byte) : (overheard code).audience.Numbered :=
  (numbered_load system _ Audience.numbered_empty).subscribe

/-- The program pushes a number, prints it and ends. -/
def printsSeven : Machine Monitor :=
  overheard ([.seti .a0 7, .push .a0 .sp, .sys 2, .sys 0].flatMap Instruction.encode)

theorem heard_of_steps_printsSeven :
    let n := printsSeven.stepped system 4
    printsSeven.audience.Numbered ∧ 0 ∈ printsSeven.audience.listeners ∧
      (∀ i < 4, ((printsSeven.stepped system i).step system).1.isOk = true) ∧
      printsSeven.replica.listen (n.heardSince printsSeven 0) = n.replica ∧
      printedText (n.heardSince printsSeven 0) = "7" ∧
      Status.ready.Leads ((n.heardSince printsSeven 0).filterMap change?) .finished := by
  have ha : printsSeven.audience.Numbered := numbered_overheard _
  have hl : 0 ∈ printsSeven.audience.listeners := by decide +kernel
  have hok : ∀ i < 4, ((printsSeven.stepped system i).step system).1.isOk = true := by
    decide +kernel
  have hsilent : printsSeven.console.output = "" := by decide +kernel
  have hready : printsSeven.status = .ready := by decide +kernel
  have hstatus : (printsSeven.stepped system 4).status = .finished := by decide +kernel
  have houtput : (printsSeven.stepped system 4).console.output = "7" := by decide +kernel
  have h := (heard_of_steps ha hl hok).1 4 (Nat.le_refl 4)
  dsimp only at h ⊢
  rw [hready, hstatus, houtput, hsilent, String.empty_append] at h
  -- What the machine has become is not to be evaluated any further.
  generalize printsSeven.stepped system 4 = n at h ⊢
  obtain ⟨-, hreplica, hleads, hprinted⟩ := h
  exact ⟨ha, hl, hok, hreplica, hprinted.symm, hleads⟩

/-! ### Faults -/

theorem Consistent.errorFlag_eq_false (h : Consistent m) (hm : m.status.isResumable = true) :
    m.registers.errorFlag = false := by
  apply Bool.eq_false_iff.mpr
  intro hf
  have hs := h.fault.mpr (h.errorFlag.mpr hf)
  rw [hs] at hm
  cases hm

/-- After a fault the copy that a listener keeps has the memory of the machine, and its registers
too if one sets the error flag in them, of which the listener hears nothing. So it is the same as
the machine just where that flag was set before the step, which no operations bring about. -/
theorem heard_of_fault {l : Nat} (ha : m.audience.Numbered) (hl : l ∈ m.audience.listeners)
    (hm : m.status.isResumable = true) (h : (m.step system).1.isOk = false) :
    let n := (m.step system).2
    let copy := m.replica.listen (n.heardSince m l)
    n.heard l = m.heard l ++ n.heardSince m l ∧ n.memory = copy.memory ∧
      n.registers = copy.registers.setErrorFlag true ∧
      (copy = n.replica ↔ m.registers.errorFlag = true) ∧ (Consistent m → copy ≠ n.replica) := by
  obtain ⟨i, k, news, word, hs, -⟩ | ⟨e, k, news, hs, hnews, hflag⟩ := step_told hm
  · rw [hs] at h
    cases h
  have hheard : (k.fail e).heard l =
      m.heard l ++ (news ++ statusNews k.status .permanentError) := by
    rw [heard_fail k e (hnews.listeners ▸ hl) (hnews.numbered ha).nodup,
      hnews.heard l hl ha.nodup, List.append_assoc]
  have hcopy : m.replica.listen (news ++ statusNews k.status .permanentError) = k.replica := by
    rw [Replica.listen_append, hnews.replica, listen_statusNews]
  have hsame : k.replica = (k.fail e).replica ↔ m.registers.errorFlag = true := by
    rw [replica_eq_fail_iff, hflag]
  dsimp only
  rw [hs, heardSince_of_heard hheard, hcopy]
  refine ⟨hheard, ?_, ?_, hsame, ?_⟩
  · rw [fail_eq]
    rfl
  · rw [fail_eq]
    rfl
  · intro hc heq
    have hset := hsame.mp heq
    rw [hc.errorFlag_eq_false hm] at hset
    cases hset

/-- The first word of the program is no instruction. -/
def derailed : Machine Monitor := overheard [0xA0, 0x00]

theorem heard_of_fault_derailed :
    let n := (derailed.step system).2
    derailed.audience.Numbered ∧ 0 ∈ derailed.audience.listeners ∧
      derailed.status.isResumable = true ∧ (derailed.step system).1.isOk = false ∧
      n.registers.get .flags = 2 ∧
      n.registers =
        (derailed.replica.listen (n.heardSince derailed 0)).registers.setErrorFlag true ∧
      derailed.replica.listen (n.heardSince derailed 0) ≠ n.replica := by
  have ha : derailed.audience.Numbered := numbered_overheard _
  have hl : 0 ∈ derailed.audience.listeners := by decide +kernel
  have hm : derailed.status.isResumable = true := by decide +kernel
  have hfault : (derailed.step system).1.isOk = false := by decide +kernel
  have hflags : (derailed.step system).2.registers.get .flags = 2 := by decide +kernel
  have hflag : ¬ derailed.registers.errorFlag = true := by decide +kernel
  have h := heard_of_fault ha hl hm hfault
  dsimp only at h ⊢
  generalize (derailed.step system).2 = n at h hflags ⊢
  obtain ⟨-, -, hregisters, hsame, -⟩ := h
  exact ⟨ha, hl, hm, hfault, hflags, hregisters, fun heq => hflag (hsame.mp heq)⟩

end Monitor
end Minicomputer
