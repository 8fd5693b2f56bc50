import Minicomputer.Proofs.Assembly.ImageSize
import Minicomputer.Proofs.Command.Tracing

/-!
# How sessions end

A session goes from turn to turn. A turn uses up the cycles or brings the machine to a stop, and a
machine that waits gets a line, if there is one. So every session ends, never executes more cycles
than it was given, and its exit code says in which state it has left the machine.
-/

set_option autoImplicit false

namespace Minicomputer

open Machine Monitor

/-! ### Counts of several runs -/

namespace Monitor

variable {k l m n : Machine Monitor} {a b : Nat}

theorem Counted.trans (h : Counted k a l) (hl : l.status ≠ .permanentError)
    (hfault : m.fault = l.fault) (hcycles : m.cycles = l.cycles) (hm : Counted m b n) :
    Counted k (a + b) n := by
  obtain ⟨-, hf, hc⟩ | ⟨he, -⟩ := h
  · obtain ⟨hs, hf', hc'⟩ | ⟨hs, hf', hc'⟩ := hm
    · exact .inl ⟨hs, hf'.trans (hfault.trans hf), by omega⟩
    · exact .inr ⟨hs, hf', by omega⟩
  · exact absurd he hl

end Monitor

namespace Command

/-- How a session has ended: the verdict on it, the number of cycles in all its turns, what they
have left, and the lines that nobody read. -/
structure Ending where
  verdict : Verdict
  cycles : Nat
  session : Session
  unread : List String

/-- The ending after a turn more. -/
def Ending.after (executed : Nat) (e : Ending) : Ending := { e with cycles := executed + e.cycles }

namespace Session

variable {s t u : Session} {input lines : List String} {e : Ending} {executed : Nat}

/-- A turn takes the cycles that it executes off those that remain. There is no such turn if it
executes more than that. -/
def Turn (s : Session) (executed : Nat) (t : Session) : Prop :=
  ∃ lines machine, execute s.tracing s.remaining s.machine = (executed, lines, machine) ∧
    executed ≤ s.remaining ∧ t = { s with machine, remaining := s.remaining - executed }

/-- The verdict on what a turn has left, unless the session goes on. The cycles are looked at where
the machine could go on. -/
def verdict? (t : Session) (input : List String) : Option Verdict :=
  match t.machine.status with
  | .finished => some .finished
  | .permanentError => some (.faulted t.machine.pc t.machine.fault)
  | .waiting => if input = [] then some .inputClosed else none
  | _ => if t.remaining = 0 then some (.outOfCycles t.limit) else none

/-- The turns of a session up to its end. A machine that waits gets the next line. -/
inductive Concludes : Session → List String → Ending → Prop where
  | ended {s t : Session} {executed : Nat} {input : List String} {v : Verdict}
    (turn : s.Turn executed t) (verdict : t.verdict? input = some v) :
    Concludes s input ⟨v, executed, t, input⟩
  | answered {s t : Session} {executed : Nat} {line : String} {input : List String} {e : Ending}
    (turn : s.Turn executed t) (status : t.machine.status = .waiting)
    (rest : Concludes (t.answer line) input e) : Concludes s (line :: input) (e.after executed)
  | again {s t : Session} {executed : Nat} {input : List String} {e : Ending}
    (turn : s.Turn executed t) (status : t.machine.status.isResumable = true)
    (left : t.remaining ≠ 0) (rest : Concludes t input e) : Concludes s input (e.after executed)

theorem verdict?_of_waiting (input : List String) (h : t.machine.status = .waiting) :
    t.verdict? input = if input = [] then some .inputClosed else none := by
  unfold verdict?
  rw [h]

theorem verdict?_of_isResumable (input : List String) (h : t.machine.status.isResumable = true) :
    t.verdict? input = if t.remaining = 0 then some (.outOfCycles t.limit) else none := by
  unfold verdict?
  cases hs : t.machine.status <;> rw [hs] at h <;> first | rfl | cases h

/-! ### There is at most one ending -/

theorem Turn.unique {executed' : Nat} (h : s.Turn executed t) (h' : s.Turn executed' u) :
    executed = executed' ∧ t = u := by
  obtain ⟨_, machine, he, -, rfl⟩ := h
  obtain ⟨_, machine', he', -, rfl⟩ := h'
  rw [he] at he'
  cases he'
  exact ⟨rfl, rfl⟩

/-- What a session goes on from has no verdict yet. -/
theorem Concludes.cases_turn (h : s.Concludes input e) (turn : s.Turn executed t) :
    (∃ v, t.verdict? input = some v ∧ e = ⟨v, executed, t, input⟩) ∨
      t.verdict? input = none ∧
        ((∃ line rest e', t.machine.status = .waiting ∧ input = line :: rest ∧
            (t.answer line).Concludes rest e' ∧ e = e'.after executed) ∨
          ∃ e', t.machine.status.isResumable = true ∧ t.Concludes input e' ∧
            e = e'.after executed) := by
  cases h with
  | ended turn' verdict =>
    obtain ⟨rfl, rfl⟩ := turn.unique turn'
    exact .inl ⟨_, verdict, rfl⟩
  | answered turn' status rest =>
    obtain ⟨rfl, rfl⟩ := turn.unique turn'
    exact .inr ⟨verdict?_of_waiting _ status, .inl ⟨_, _, _, status, rfl, rest, rfl⟩⟩
  | again turn' status left rest =>
    obtain ⟨rfl, rfl⟩ := turn.unique turn'
    exact .inr ⟨(verdict?_of_isResumable _ status).trans (if_neg left),
      .inr ⟨_, status, rest, rfl⟩⟩

theorem Concludes.unique {e' : Ending} (h : s.Concludes input e) (h' : s.Concludes input e') :
    e' = e := by
  induction h generalizing e' with
  | ended turn verdict =>
    obtain ⟨v, hv, rfl⟩ | ⟨hv, -⟩ := h'.cases_turn turn <;> rw [verdict] at hv <;> cases hv
    rfl
  | answered turn status rest ih =>
    obtain ⟨v, hv, -⟩ | ⟨-, ⟨_, _, _, -, hl, hr, rfl⟩ | ⟨_, hs, -⟩⟩ := h'.cases_turn turn
    · rw [verdict?_of_waiting _ status] at hv
      cases hv
    · cases hl
      rw [ih hr]
    · rw [status] at hs
      cases hs
  | again turn status left rest ih =>
    obtain ⟨v, hv, -⟩ | ⟨-, ⟨_, _, _, hs, -⟩ | ⟨_, -, hr, rfl⟩⟩ := h'.cases_turn turn
    · rw [verdict?_of_isResumable _ status, if_neg left] at hv
      cases hv
    · rw [hs] at status
      cases status
    · rw [ih hr]

/-! ### What an ending says -/

theorem Turn.remaining_add (h : s.Turn executed t) : t.remaining + executed = s.remaining := by
  obtain ⟨_, _, -, hle, rfl⟩ := h
  exact Nat.sub_add_cancel hle

theorem turn_round (h : (execute s.tracing s.remaining s.machine).1 ≤ s.remaining) :
    s.Turn (execute s.tracing s.remaining s.machine).1 s.round.2.2 :=
  ⟨_, _, rfl, h, rfl⟩

/-- No cycle is lost or counted twice. -/
theorem Concludes.remaining_add (h : s.Concludes input e) :
    e.session.remaining + e.cycles = s.remaining := by
  induction h with
  | ended turn => exact turn.remaining_add
  | @answered s t executed line input e turn status rest ih =>
    have ht := turn.remaining_add
    have hr : e.session.remaining + e.cycles = t.remaining := ih
    show e.session.remaining + (executed + e.cycles) = s.remaining
    omega
  | @again s t executed input e turn status left rest ih =>
    have ht := turn.remaining_add
    show e.session.remaining + (executed + e.cycles) = s.remaining
    omega

/-- An exit code and the state that a session has left its machine in, with the cycles and the lines
that are left over, tell each other. -/
structure Says (exit : UInt32) (e : Ending) : Prop where
  zero : exit = 0 ↔ e.session.machine.status = .finished
  one : exit = 1 ↔ e.session.machine.status = .permanentError ∨
    e.session.machine.status = .waiting ∧ e.unread = []
  two : exit = 2 ↔ e.session.machine.status.isResumable = true ∧ e.session.remaining = 0

theorem Says.after {exit : UInt32} (h : Says exit e) (executed : Nat) :
    Says exit (e.after executed) :=
  ⟨h.zero, h.one, h.two⟩

theorem verdict?_cases {v : Verdict} (h : t.verdict? input = some v) :
    t.machine.status = .finished ∧ v = .finished ∨
      t.machine.status = .permanentError ∧ v = .faulted t.machine.pc t.machine.fault ∨
      (t.machine.status = .waiting ∧ input = []) ∧ v = .inputClosed ∨
      (t.machine.status.isResumable = true ∧ t.remaining = 0) ∧ v = .outOfCycles t.limit := by
  cases hr : t.machine.status.isResumable with
  | true =>
    rw [verdict?_of_isResumable input hr] at h
    split at h
    · next hl => exact .inr (.inr (.inr ⟨⟨rfl, hl⟩, (Option.some.inj h).symm⟩))
    · cases h
  | false =>
    unfold verdict? at h
    cases hs : t.machine.status <;> rw [hs] at h hr
    case finished => exact .inl ⟨rfl, (Option.some.inj h).symm⟩
    case permanentError => exact .inr (.inl ⟨rfl, (Option.some.inj h).symm⟩)
    case waiting =>
      dsimp only at h
      split at h
      · next hi => exact .inr (.inr (.inl ⟨⟨rfl, hi⟩, (Option.some.inj h).symm⟩))
      · cases h
    all_goals cases hr

theorem says_of_verdict {v : Verdict} (h : t.verdict? input = some v) (executed : Nat) :
    Says v.report.2 ⟨v, executed, t, input⟩ := by
  have not_resumable {status : Status} (hs : t.machine.status = status)
      (hr : status.isResumable = false) :
      ¬ (t.machine.status.isResumable = true ∧ t.remaining = 0) := by
    rw [hs, hr]
    exact fun h => Bool.false_ne_true h.1
  obtain ⟨hs, rfl⟩ | ⟨hs, rfl⟩ | ⟨⟨hs, hi⟩, rfl⟩ | ⟨⟨hr, hl⟩, rfl⟩ := verdict?_cases h
  · have hexit : Verdict.finished.report.2 = 0 := rfl
    rw [hexit]
    exact ⟨iff_of_true rfl hs, iff_of_false (by decide) (by simp [hs]),
      iff_of_false (by decide) (not_resumable hs rfl)⟩
  · have hexit : (Verdict.faulted t.machine.pc t.machine.fault).report.2 = 1 := rfl
    rw [hexit]
    exact ⟨iff_of_false (by decide) (by simp [hs]), iff_of_true rfl (.inl hs),
      iff_of_false (by decide) (not_resumable hs rfl)⟩
  · have hexit : Verdict.inputClosed.report.2 = 1 := rfl
    rw [hexit]
    exact ⟨iff_of_false (by decide) (by simp [hs]), iff_of_true rfl (.inr ⟨hs, hi⟩),
      iff_of_false (by decide) (not_resumable hs rfl)⟩
  · have hexit : (Verdict.outOfCycles t.limit).report.2 = 2 := rfl
    have ne {status : Status} (hs : status.isResumable = false) : t.machine.status ≠ status := by
      rintro rfl
      rw [hr] at hs
      cases hs
    rw [hexit]
    exact ⟨iff_of_false (by decide) (ne rfl),
      iff_of_false (by decide) fun h => h.elim (ne rfl) fun h => ne rfl h.1,
      iff_of_true rfl ⟨hr, hl⟩⟩

theorem Concludes.says (h : s.Concludes input e) : Says e.verdict.report.2 e := by
  induction h with
  | ended turn verdict => exact says_of_verdict verdict _
  | answered turn status rest ih => exact ih.after _
  | again turn status left rest ih => exact ih.after _

/-! ### There is an ending -/

/-- A run executes what it may, with a trace or without one. -/
theorem execute_cases (tracing : Bool) {m : Machine Monitor} (h : m.Unhindered) (limit : Nat) :
    (∃ lines, execute tracing limit m =
        ((m.runLimited system limit).1, lines, (m.runLimited system limit).2)) ∨
      limit = 0 ∧ execute tracing limit m = (0, [], m) := by
  cases tracing with
  | false => exact .inl ⟨[], execute_false limit m⟩
  | true =>
    obtain rfl | hl := Nat.eq_zero_or_pos limit
    · exact .inr ⟨rfl, rfl⟩
    · exact .inl (execute_true_eq h (.inl hl))

/-- What begins a run and is not stopped uses up its limit. -/
theorem runLimited_fst_of_isResumable {m : Machine Monitor} (h : m.Unhindered)
    (hr : m.status.isResumable = true) {limit : Nat}
    (hs : (m.runLimited system limit).2.status.isResumable = true) :
    (m.runLimited system limit).1 = limit := by
  rw [← runLimited_setStatus_executing system limit hr] at hs ⊢
  have hf := (free_setStatus h).runLimited (status_setStatus _ _) limit
  exact runLimited_fst_of_executing system (hf.status hs)

/-- A session that can go on. -/
structure Open (s : Session) : Prop where
  unhindered : s.machine.Unhindered
  resumable : s.machine.status.isResumable = true

/-- A turn that stops the machine or leaves no cycles is the last one, unless the machine waits. -/
theorem Turn.upshot (h : s.Turn executed t)
    (hspent : t.machine.status.isResumable = true → t.remaining = 0) :
    t.machine.status = .waiting ∧ s.upshot executed t.machine = .wantsLine ∨
      ∃ v, (∀ input, t.verdict? input = some v) ∧ s.upshot executed t.machine = .ended v := by
  obtain ⟨_, machine, -, -, rfl⟩ := h
  cases hr : machine.status.isResumable with
  | true =>
    have hl : s.remaining - executed = 0 := hspent hr
    refine .inr ⟨.outOfCycles s.limit, fun input => ?_, ?_⟩
    · rw [verdict?_of_isResumable input hr]
      exact if_pos hl
    · unfold Session.upshot
      cases hs : machine.status <;> rw [hs] at hr <;> first | exact if_pos hl | cases hr
  | false =>
    unfold Session.upshot verdict?
    cases hs : machine.status <;> rw [hs] at hr
    case waiting => exact .inl ⟨rfl, rfl⟩
    case finished => exact .inr ⟨.finished, fun _ => rfl, rfl⟩
    case permanentError =>
      exact .inr ⟨.faulted machine.pc machine.fault, fun _ => rfl, rfl⟩
    all_goals cases hr

/-- A session that can go on has a turn, and no second one before the machine has got a line. -/
theorem Open.exists_turn (h : s.Open) :
    ∃ executed lines t, s.Turn executed t ∧ Counted s.machine executed t.machine ∧
      (t.machine.Unhindered ∧ t.machine.status = .waiting ∧ s.round = (.wantsLine, lines, t) ∨
        ∃ v, (∀ input, t.verdict? input = some v) ∧ s.round = (.ended v, lines, t)) := by
  have conclude {executed : Nat} {lines : List String} {t : Session} (turn : s.Turn executed t)
      (hround : s.round = (s.upshot executed t.machine, lines, t)) (hu : t.machine.Unhindered)
      (hspent : t.machine.status.isResumable = true → t.remaining = 0) :
      t.machine.Unhindered ∧ t.machine.status = .waiting ∧ s.round = (.wantsLine, lines, t) ∨
        ∃ v, (∀ input, t.verdict? input = some v) ∧ s.round = (.ended v, lines, t) := by
    obtain ⟨hs, hw⟩ | ⟨v, hv, hw⟩ := turn.upshot hspent <;> rw [hw] at hround
    · exact .inl ⟨hu, hs, hround⟩
    · exact .inr ⟨v, hv, hround⟩
  obtain ⟨hu, hr⟩ := h
  obtain ⟨lines, he⟩ | ⟨hl, he⟩ := execute_cases s.tracing hu s.remaining
  · have hle := runLimited_fst_le system s.remaining s.machine
    have turn : s.Turn _ _ := ⟨_, _, he, hle, rfl⟩
    refine ⟨_, lines, _, turn, counted_runLimited hr _,
      conclude turn (round_eq he) (unhindered_runLimited hu _) fun hs => ?_⟩
    have hall := runLimited_fst_of_isResumable hu hr hs
    dsimp only
    rw [hall, Nat.sub_self]
  -- Without cycles a traced run does not begin, and the cycles are all spent.
  · have hs : s.machine.status ≠ .permanentError := by
      intro hs
      rw [hs] at hr
      cases hr
    have turn : s.Turn _ _ := ⟨_, _, he, Nat.zero_le _, rfl⟩
    exact ⟨0, [], _, turn, .inl ⟨hs, rfl, rfl⟩, conclude turn (round_eq he) hu fun _ => hl⟩

theorem Open.answer (hu : t.machine.Unhindered) (hs : t.machine.status = .waiting) (line : String) :
    (t.answer line).Open ∧ (t.answer line).machine.fault = t.machine.fault ∧
      (t.answer line).machine.cycles = t.machine.cycles := by
  have hm : (t.answer line).machine = (t.machine.provideInput line).setStatus .ready := by
    show (t.machine.provideInput line).pause = _
    have hs' : (t.machine.provideInput line).status = .waiting := hs
    unfold Machine.pause
    rw [hs']
  refine ⟨⟨unhindered_answer hu line, ?_⟩, ?_, ?_⟩ <;> rw [hm]
  · rw [status_setStatus]
    rfl
  · rw [setStatus_eq]
    rfl
  · rw [setStatus_eq]
    rfl

/-- A session that can go on comes to its end, with the cycles that its machine has counted. -/
theorem Open.concludes (h : s.Open) (input : List String) :
    ∃ e lines, s.Concludes input e ∧ s.attend input = (e.verdict, lines, e.session) ∧
      Counted s.machine e.cycles e.session.machine := by
  induction input generalizing s with
  | nil =>
    obtain ⟨executed, lines, t, turn, hcount, ⟨-, hs, hround⟩ | ⟨v, hv, hround⟩⟩ := h.exists_turn
    · exact ⟨_, lines, .ended turn (verdict?_of_waiting [] hs), attend_of_wantsLine_nil hround,
        hcount⟩
    · exact ⟨_, lines, .ended turn (hv []), attend_of_ended [] hround, hcount⟩
  | cons line input ih =>
    obtain ⟨executed, lines, t, turn, hcount, ⟨hu, hs, hround⟩ | ⟨v, hv, hround⟩⟩ := h.exists_turn
    · obtain ⟨hopen, hfault, hcycles⟩ := Open.answer hu hs line
      obtain ⟨e, more, hrest, hattend, hcount'⟩ := ih hopen
      have hne : t.machine.status ≠ .permanentError := by
        rw [hs]
        decide
      refine ⟨e.after executed, lines ++ more, .answered turn hs hrest, ?_,
        hcount.trans hne hfault hcycles hcount'⟩
      rw [attend_of_wantsLine_cons line input hround, hattend]
      rfl
    · exact ⟨_, lines, .ended turn (hv _), attend_of_ended _ hround, hcount⟩

theorem start_of_fits (seed : UInt64) (options : RunOptions) {p : Program}
    (h : p.imageSize ≤ memorySize) :
    ∃ s, start (.ofSeed seed) options p = .ok s ∧ s.Open ∧ s.machine.cycles = 0 ∧
      s.remaining = options.maxCycles := by
  have hload := (Machine.load_eq_ok_iff system p (Machine.new (ofSeed seed))).mpr h
  obtain ⟨registers, memory, debugInfo, audience, hl⟩ := loaded_eq p seed
  unfold loaded at hl
  unfold start
  rcases hr : (Machine.new (ofSeed seed)).load system p with ⟨r, m⟩
  rw [hr] at hload hl
  obtain rfl : r = .ok () := hload
  obtain rfl : m = _ := hl
  refine ⟨_, rfl, ⟨?_, ?_⟩, ?_, rfl⟩ <;> cases options.input <;> first | exact ⟨rfl, rfl⟩ | rfl

end Session

/-- A program that fits is run to an end, and to one only. Not more cycles are executed than were
allowed, and the machine has counted them all but one in which it failed. The exit code tells a
program that has finished, one that has failed or waits for a line where there is none, and one that
could go on but for the cycles. -/
theorem runProgram_concludes (seed : UInt64) (options : RunOptions) (input : List String)
    {p : Program} (h : p.imageSize ≤ memorySize) :
    ∃ s e, Session.start (.ofSeed (options.seed.getD seed)) options p = .ok s ∧
      s.remaining = options.maxCycles ∧ s.Concludes input e ∧
      (∀ e', s.Concludes input e' → e' = e) ∧ e.cycles ≤ options.maxCycles ∧
      (e.session.machine.status ≠ .permanentError ∧ e.session.machine.cycles = e.cycles ∨
        e.session.machine.status = .permanentError ∧
          e.session.machine.cycles + 1 = e.cycles) ∧
      (let exit := (runProgram seed options input p).exit
      (exit = 0 ↔ e.session.machine.status = .finished) ∧
        (exit = 1 ↔ e.session.machine.status = .permanentError ∨
          e.session.machine.status = .waiting ∧ e.unread = []) ∧
        (exit = 2 ↔ e.session.machine.status.isResumable = true ∧
          e.cycles = options.maxCycles)) := by
  obtain ⟨s, hstart, hopen, hzero, hremaining⟩ :=
    Session.start_of_fits (options.seed.getD seed) options h
  obtain ⟨e, lines, hconcludes, hattend, hcount⟩ := hopen.concludes input
  have hsum := hconcludes.remaining_add
  obtain ⟨says0, says1, says2⟩ := hconcludes.says
  have hexit : (runProgram seed options input p).exit = e.verdict.report.2 := by
    unfold runProgram
    rw [hstart]
    dsimp only
    rw [hattend]
  refine ⟨s, e, hstart, hremaining, hconcludes, fun e' h' => hconcludes.unique h', by omega, ?_, ?_⟩
  · obtain ⟨hs, -, hc⟩ | ⟨hs, -, hc⟩ := hcount
    · exact .inl ⟨hs, by omega⟩
    · exact .inr ⟨hs, by omega⟩
  · dsimp only
    rw [hexit]
    refine ⟨says0, says1, says2.trans (and_congr_right fun _ => ?_)⟩
    omega

/-- A session of four cycles with a program that reads twice. -/
def fourCycles : Session := ⟨{ loaded twoReads 1 with speed := 0 }, 4, 4, false⟩

/-- The program waits in its first turn, and finishes in its second one with the last cycle. -/
theorem runProgram_concludes_twoReads :
    twoReads.imageSize ≤ memorySize ∧
      (runProgram 1 { maxCycles := 4 } ["x\n"] twoReads).exit = 0 := by
  have hfits : twoReads.imageSize ≤ memorySize := by decide
  obtain ⟨s, e, hstart, -, -, hunique, -, -, hexit, -⟩ :=
    runProgram_concludes 1 { maxCycles := 4 } ["x\n"] hfits
  obtain rfl : s = fourCycles := Except.ok.inj (hstart.symm.trans (by rfl))
  have first := Session.turn_round (s := fourCycles) (by decide +kernel)
  have waits : fourCycles.round.2.2.machine.status = .waiting := by decide +kernel
  have second := Session.turn_round (s := fourCycles.round.2.2.answer "x\n") (by decide +kernel)
  have ends : (fourCycles.round.2.2.answer "x\n").round.2.2.machine.status = .finished := by
    decide +kernel
  generalize (fourCycles.round.2.2.answer "x\n").round.2.2 = t at second ends
  have verdict : t.verdict? [] = some .finished := by
    unfold Session.verdict?
    rw [ends]
  obtain rfl := hunique _ (.answered first waits (.ended second verdict))
  exact ⟨hfits, hexit.mpr ends⟩

end Command
end Minicomputer
