import Minicomputer.Command.Basic
import Minicomputer.Proofs.Monitor.Conversation

/-!
# Runs with a trace

A traced run is a loop of single steps, one without a trace is a run of the machine. Where nobody
has set a breakpoint or asks for a pause, the two execute the same cycles and end in the same
machine; so a session says the same and ends with the same verdict, and a trace only adds lines.
-/

set_option autoImplicit false

namespace Minicomputer

open Machine Monitor

/-! ### Single runs -/

namespace Machine

variable {σ : Type} {m : Machine σ}

/-- No breakpoint and no pause is in the way of a run. -/
structure Unhindered (m : Machine σ) : Prop where
  breakpoints : m.breakpoints = []
  pauseRequested : m.pauseRequested = false

theorem Unhindered.setStatus (h : m.Unhindered) (status : Status) :
    (m.setStatus status).Unhindered := by
  rw [setStatus_eq]
  exact ⟨h.breakpoints, h.pauseRequested⟩

theorem Unhindered.pause (h : m.Unhindered) : m.pause.Unhindered := by
  unfold Machine.pause
  split
  · exact h.setStatus .ready
  · exact h.setStatus .ready
  · exact h.setStatus .ready
  · exact h

end Machine

namespace Monitor

variable {m : Machine Monitor}

theorem free_setStatus (h : m.Unhindered) : Free (m.setStatus .executing) where
  breakpoints := (h.setStatus .executing).breakpoints
  pauseRequested := (h.setStatus .executing).pauseRequested
  status _ := status_setStatus m .executing

theorem unhindered_runLimited (h : m.Unhindered) (limit : Nat) :
    (m.runLimited system limit).2.Unhindered := by
  cases hm : m.status.isResumable with
  | false =>
    rw [runLimited_of_not_isResumable system limit hm]
    exact h
  | true =>
    rw [← runLimited_setStatus_executing system limit hm]
    have hf := (free_setStatus h).runLimited (status_setStatus _ _) limit
    exact ⟨hf.breakpoints, hf.pauseRequested⟩

end Monitor

namespace Command.Session

variable {m : Machine Monitor}

theorem traced_of_not_isResumable (executed : Nat) (lines : List String) (limit : Nat)
    (h : m.status.isResumable = false) :
    traced executed lines limit m = (executed, lines.reverse, m) := by
  cases limit with
  | zero => rfl
  | succ n => rw [traced, if_neg (by rw [h]; decide)]

/-- The first step is what begins to execute. -/
theorem traced_setStatus (executed : Nat) (lines : List String) (limit : Nat)
    (h : m.status.isResumable = true) :
    traced executed lines (limit + 1) (m.setStatus .executing) =
      traced executed lines (limit + 1) m := by
  have hs := m.status_setStatus .executing
  have hr : (m.setStatus .executing).status.isResumable = true := congrArg Status.isResumable hs
  have hstep : (m.setStatus .executing).step system = m.step system := by
    rw [step, step, if_pos hr, if_pos h, setStatus_of_eq hs]
  have hpc : (m.setStatus .executing).pc = m.pc := congrArg RegisterFile.pc (registers_setStatus ..)
  rw [traced, traced, if_pos hr, if_pos h, hstep, hpc]

theorem hear_undisturbed (hm : Free m) (executed : Nat) :
    (m.hear undisturbed executed).pauseRequested = false := hm.pauseRequested

/-- Step by step is cycle by cycle. -/
theorem traced_eq_continueRun (hm : Free m) (executed : Nat) (lines : List String) (limit : Nat) :
    ∃ found, traced executed lines limit m =
      ((continueRun system undisturbed executed limit m).1, found,
        (continueRun system undisturbed executed limit m).2) := by
  induction limit generalizing executed lines m with
  | zero =>
    rw [continueRun_zero system (hear_undisturbed hm executed)]
    exact ⟨_, rfl⟩
  | succ n ih =>
    cases hr : m.status.isResumable with
    | false =>
      have hs : m.status ≠ .executing := by
        intro hs
        rw [hs] at hr
        cases hr
      rw [continueRun_of_not_executing system _ _ _ hs, traced_of_not_isResumable _ _ _ hr]
      exact ⟨_, rfl⟩
    | true =>
      have hs := hm.status hr
      have hstep : m.step system = m.cycle system := by
        rw [step, if_pos hr, setStatus_of_eq hs]
      have hc := hm.cycle hs
      rw [continueRun_succ system n hs (hear_undisturbed hm executed), hc.stopAtBreakpoint, traced,
        if_pos hr, hstep]
      obtain ⟨i, k, -, hk⟩ | ⟨e, k, -, hk⟩ := cycle_cases m <;> rw [hk] at hc ⊢
      · exact ih hc _ _
      · have hf : (k.fail e).status ≠ .executing := by
          rw [show (k.fail e).status = .permanentError from status_setStatus _ _]
          decide
        rw [continueRun_of_not_executing system _ _ _ hf]
        exact ⟨_, rfl⟩

theorem execute_false (limit : Nat) (m : Machine Monitor) :
    execute false limit m =
      ((m.runLimited system limit).1, [], (m.runLimited system limit).2) := rfl

/-- A run of no cycles is one all the same. -/
theorem execute_false_zero (h : m.Unhindered) :
    execute false 0 m =
      (0, [], if m.status.isResumable then m.setStatus .executing else m) := by
  rw [execute_false]
  cases hr : m.status.isResumable with
  | true =>
    rw [runLimited_of_isResumable system 0 hr,
      continueRun_zero system (hear_undisturbed (free_setStatus h) 0)]
    rfl
  | false =>
    rw [runLimited_of_not_isResumable system 0 hr]
    rfl

theorem execute_true_eq (h : m.Unhindered) {limit : Nat}
    (hl : 0 < limit ∨ m.status.isResumable = false) :
    ∃ found, execute true limit m =
      ((execute false limit m).1, found, (execute false limit m).2.2) := by
  rw [execute_false]
  cases hr : m.status.isResumable with
  | true =>
    obtain ⟨n, rfl⟩ := Nat.exists_eq_add_one_of_ne_zero
      (Nat.ne_of_gt (hl.resolve_right (by rw [hr]; decide)))
    rw [runLimited_of_isResumable system _ hr]
    change ∃ found, traced 0 [] (n + 1) m = _
    rw [← traced_setStatus 0 [] n hr]
    exact traced_eq_continueRun (free_setStatus h) 0 [] (n + 1)
  | false =>
    rw [runLimited_of_not_isResumable system _ hr]
    exact ⟨[], traced_of_not_isResumable 0 [] limit hr⟩

/-! ### Sessions -/

variable {s t : Session} {lines : List String}

/-- The session without its trace. -/
def untraced (s : Session) : Session := { s with tracing := false }

/-- What comes after a round of so many cycles that has left this machine. -/
def upshot (s : Session) (executed : Nat) (m : Machine Monitor) : Next :=
  match m.status with
  | .finished => .ended .finished
  | .permanentError => .ended (.faulted m.pc m.fault)
  | .waiting => .wantsLine
  | _ =>
    if s.remaining - executed = 0 then .ended (.outOfCycles s.limit)
    else if executed = 0 then .ended .idle
    else .again

theorem round_eq {executed : Nat} {machine : Machine Monitor}
    (h : execute s.tracing s.remaining s.machine = (executed, lines, machine)) :
    s.round = (s.upshot executed machine, lines,
      { s with machine, remaining := s.remaining - executed }) := by
  unfold round
  rw [h]
  rfl

theorem upshot_of_spent (hs : s.remaining = 0) (hm : m.status.isResumable = true) :
    s.upshot 0 m = .ended (.outOfCycles s.limit) := by
  unfold upshot
  rw [hs]
  cases ht : m.status <;> rw [ht] at hm <;> first | rfl | cases hm

theorem unhindered_round (h : s.machine.Unhindered) : s.untraced.round.2.2.machine.Unhindered := by
  have hu : s.untraced.round = _ := round_eq (execute_false s.remaining s.machine)
  rw [hu]
  exact unhindered_runLimited h s.remaining

/-- A session has the same rounds without its trace, but that the machine of one without any cycles
left begins to execute, which ends it. -/
theorem round_untraced {next : Next} (h : s.machine.Unhindered)
    (hr : s.round = (next, lines, t)) :
    s.untraced.round = (next, [], t.untraced) ∨
      ∃ v u, next = .ended v ∧ s.untraced.round = (.ended v, [], u) ∧
        u.machine.console = t.machine.console := by
  have hu : s.untraced.round = _ := round_eq (execute_false s.remaining s.machine)
  cases ht : s.tracing with
  | false =>
    have he : execute s.tracing s.remaining s.machine = _ := ht ▸ execute_false ..
    rw [round_eq he] at hr
    cases hr
    exact .inl hu
  | true =>
    by_cases hl : 0 < s.remaining ∨ s.machine.status.isResumable = false
    · obtain ⟨found, he⟩ := execute_true_eq h hl
      rw [← ht] at he
      rw [round_eq he] at hr
      cases hr
      exact .inl hu
    · have hs : s.remaining = 0 := by omega
      have hm : s.machine.status.isResumable = true := by simpa using fun h => hl (.inr h)
      have he : execute s.tracing s.remaining s.machine = (0, [], s.machine) := by
        rw [ht, hs]
        rfl
      have hf : execute s.untraced.tracing s.untraced.remaining s.untraced.machine =
          (0, [], s.machine.setStatus .executing) := by
        change execute false s.remaining s.machine = _
        rw [hs, execute_false_zero h, if_pos hm]
      have hx : (s.machine.setStatus .executing).status.isResumable = true :=
        congrArg Status.isResumable (status_setStatus _ _)
      rw [round_eq he, upshot_of_spent hs hm] at hr
      cases hr
      rw [round_eq hf, upshot_of_spent (s := s.untraced) hs hx]
      refine .inr ⟨_, _, rfl, rfl, ?_⟩
      dsimp only
      rw [setStatus_eq]

theorem attend_of_ended {v : Verdict} (input : List String) (h : s.round = (.ended v, lines, t)) :
    s.attend input = (v, lines, t) := by
  rw [attend.eq_def]
  split <;> simp_all

theorem attend_of_again (input : List String) (h : s.round = (.again, lines, t)) :
    s.attend input =
      ((t.attend input).1, lines ++ (t.attend input).2.1, (t.attend input).2.2) := by
  rw [attend.eq_def]
  split <;> simp_all

theorem attend_of_wantsLine_nil (h : s.round = (.wantsLine, lines, t)) :
    s.attend [] = (.inputClosed, lines, t) := by
  rw [attend.eq_def]
  split <;> simp_all

theorem attend_of_wantsLine_cons (line : String) (input : List String)
    (h : s.round = (.wantsLine, lines, t)) :
    s.attend (line :: input) = (((t.answer line).attend input).1,
      lines ++ ((t.answer line).attend input).2.1, ((t.answer line).attend input).2.2) := by
  rw [attend.eq_def]
  split <;> simp_all

theorem unhindered_answer (h : s.machine.Unhindered) (line : String) :
    (s.answer line).machine.Unhindered :=
  Unhindered.pause (m := s.machine.provideInput line) ⟨h.breakpoints, h.pauseRequested⟩

/-- A session ends alike without its trace. -/
theorem attend_untraced (s : Session) (input : List String) (h : s.machine.Unhindered) :
    (s.untraced.attend input).1 = (s.attend input).1 ∧
      (s.untraced.attend input).2.1 = [] ∧
        (s.untraced.attend input).2.2.machine.console = (s.attend input).2.2.machine.console := by
  have kept {s t : Session} {next : Next} (h : s.machine.Unhindered)
      (hu : s.untraced.round = (next, [], t.untraced)) : t.machine.Unhindered := by
    have hk := unhindered_round h
    rwa [hu] at hk
  fun_induction attend s input with
  | case1 s input v lines t hr =>
    obtain hu | ⟨v, u, hv, hu, hc⟩ := round_untraced h hr
    · rw [attend_of_ended input hu]
      exact ⟨rfl, rfl, rfl⟩
    · cases hv
      rw [attend_of_ended input hu]
      exact ⟨rfl, rfl, hc⟩
  | case2 s lines t input hr verdict more last ht ih =>
    obtain hu | ⟨v, u, hv, -⟩ := round_untraced h hr
    · rw [ht] at ih
      rw [attend_of_again input hu]
      exact ih (kept h hu)
    · cases hv
  | case3 s lines t hr =>
    obtain hu | ⟨v, u, hv, -⟩ := round_untraced h hr
    · rw [attend_of_wantsLine_nil hu]
      exact ⟨rfl, rfl, rfl⟩
    · cases hv
  | case4 s lines t line input hr verdict more last ht ih =>
    obtain hu | ⟨v, u, hv, -⟩ := round_untraced h hr
    · rw [ht] at ih
      rw [attend_of_wantsLine_cons line input hu]
      exact ih (unhindered_answer (kept h hu) line)
    · cases hv

end Session

/-! ### Programs -/

def RunOptions.withTrace (options : RunOptions) (trace : Bool) : RunOptions :=
  { options with trace }

variable {monitor : Monitor} {seed : UInt64} {options : RunOptions} {p : Program} {s : Session}

theorem Session.start_withTrace_false (monitor : Monitor) (options : RunOptions) (p : Program) :
    start monitor (options.withTrace false) p =
      (start monitor (options.withTrace true) p).map untraced := by
  unfold start RunOptions.withTrace
  dsimp only
  split <;> rfl

theorem Session.unhindered_start (h : start (.ofSeed seed) options p = .ok s) :
    s.machine.Unhindered := by
  obtain ⟨registers, memory, debugInfo, audience, hl⟩ := loaded_eq p seed
  have hm : (loaded p seed).Unhindered := by
    rw [hl]
    exact ⟨rfl, rfl⟩
  unfold start at h
  split at h
  · cases h
  · next m hload =>
    rw [loaded, hload] at hm
    cases h
    cases options.input with
    | some text => exact ⟨hm.breakpoints, hm.pauseRequested⟩
    | none => exact ⟨hm.breakpoints, hm.pauseRequested⟩

/-- A trace changes neither a run nor what a program says and how it ends. Only where there are no
cycles does a traced run not even begin to execute. -/
theorem traced_alike :
    (∀ (m : Machine Monitor) (n : Nat), m.breakpoints = [] → m.pauseRequested = false →
      let plain := Session.execute false n m
      let traced := Session.execute true n m
      traced.1 = plain.1 ∧
        (n ≠ 0 → traced.2.2 = plain.2.2) ∧
        (n = 0 → traced.2.2 = m ∧
          plain.2.2 = if m.status.isResumable then m.setStatus .executing else m)) ∧
      ∀ (seed : UInt64) (options : RunOptions) (input : List String) (p : Program),
        let plain := runProgram seed (options.withTrace false) input p
        let traced := runProgram seed (options.withTrace true) input p
        traced.output = plain.output ∧ traced.exit = plain.exit := by
  refine ⟨fun m n hb hp => ?_, fun seed options input p => ?_⟩
  · have h : m.Unhindered := ⟨hb, hp⟩
    dsimp only
    obtain rfl | hn := Nat.eq_zero_or_pos n
    · rw [Session.execute_false_zero h]
      exact ⟨rfl, fun h => absurd rfl h, fun _ => ⟨rfl, rfl⟩⟩
    · obtain ⟨found, he⟩ := Session.execute_true_eq h (.inl hn)
      rw [he]
      exact ⟨rfl, fun _ => rfl, fun h => absurd h (Nat.ne_of_gt hn)⟩
  · have hseed (trace : Bool) : (options.withTrace trace).seed = options.seed := rfl
    dsimp only
    unfold runProgram
    rw [hseed, hseed, Session.start_withTrace_false]
    cases hs : Session.start (.ofSeed (options.seed.getD seed)) (options.withTrace true) p with
    | error e => exact ⟨rfl, rfl⟩
    | ok s =>
      obtain ⟨hverdict, -, hconsole⟩ := s.attend_untraced input (Session.unhindered_start hs)
      dsimp only [Except.map]
      rw [hverdict, hconsole]
      exact ⟨rfl, rfl⟩

theorem traced_alike_of_twoReads :
    let m := loaded twoReads 1
    m.breakpoints = [] ∧ m.pauseRequested = false ∧ (Session.execute true 3 m).1 = 1 ∧
      (Session.execute true 3 m).2.2.status = .waiting ∧
      (Session.execute true 3 m).2.2 = (Session.execute false 3 m).2.2 := by
  have hb : (loaded twoReads 1).breakpoints = [] := by decide +kernel
  have hp : (loaded twoReads 1).pauseRequested = false := by decide +kernel
  obtain ⟨-, hmachine, -⟩ := traced_alike.1 (loaded twoReads 1) 3 hb hp
  exact ⟨hb, hp, by decide +kernel, by decide +kernel, hmachine (by decide)⟩

end Command
end Minicomputer
