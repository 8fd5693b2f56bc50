import Minicomputer.Proofs.Monitor.Renewal

/-!
# Asking for a pause

The flag that asks for a pause is raised by others at any time. It is taken down at the top of a
turn of the loop of a run, and the run ends there. Whatever else ends a run leaves the flag as it
is, and so does every instruction; a flag that comes too late for one run ends the next one before
its first instruction.
-/

set_option autoImplicit false

namespace Minicomputer

theorem Status.stopped_of_ne {s : Status} (he : s ≠ .executing) (hr : s ≠ .ready) :
    s = .finished ∨ s = .permanentError ∨ s = .waiting ∨ s = .breakpoint := by
  cases s with
  | ready => exact absurd rfl hr
  | executing => exact absurd rfl he
  | finished => exact .inl rfl
  | permanentError => exact .inr (.inl rfl)
  | waiting => exact .inr (.inr (.inl rfl))
  | breakpoint => exact .inr (.inr (.inr rfl))

namespace Machine

variable {σ : Type}

/-! ### The loop of a run, turn by turn -/

/-- A run between two turns of its loop. -/
structure Activity (σ : Type) where
  machine : Machine σ
  executed : Nat
  /-- Cycles until the limit. -/
  left : Nat
  ended : Bool

namespace Activity

def start (limit : Nat) (m : Machine σ) : Activity σ where
  machine := if m.status.isResumable then m.setStatus .executing else m
  executed := 0
  left := limit
  ended := false

/-- Others ask for a pause, or do not. They may go on asking when the run has ended. -/
def hear (signals : Schedule) (turn : Nat) (a : Activity σ) : Activity σ :=
  { a with machine := a.machine.hear signals turn }

def turn (S : System σ) (a : Activity σ) : Activity σ :=
  if a.ended then a
  else if a.machine.status ≠ .executing then { a with ended := true }
  else if a.machine.pauseRequested then
    { a with
      machine := { a.machine with pauseRequested := false }.setStatus .ready
      ended := true }
  else
    match a.left with
    | 0 => { a with ended := true }
    | left + 1 =>
      { a with
        machine := (a.machine.cycle S).2.stopAtBreakpoint
        executed := a.executed + 1
        left }

end Activity

/-- A run in front of a turn of its loop. -/
def activity (S : System σ) (signals : Schedule) (limit : Nat) (m : Machine σ) :
    Nat → Activity σ
  | 0 => .start limit m
  | k + 1 => ((activity S signals limit m k).hear signals k).turn S

/-- A run at the top of a turn, when others have asked for a pause there if they do. -/
def activityTop (S : System σ) (signals : Schedule) (limit : Nat) (m : Machine σ) (k : Nat) :
    Activity σ :=
  (activity S signals limit m k).hear signals k

/-- The flag is up at the top of a turn and down after it. -/
def TakesFlag (S : System σ) (signals : Schedule) (limit : Nat) (m : Machine σ) (k : Nat) : Prop :=
  (activityTop S signals limit m k).machine.pauseRequested = true ∧
    (activity S signals limit m (k + 1)).machine.pauseRequested = false

variable {S : System σ} {signals : Schedule} {limit k : Nat} {m : Machine σ}

theorem hear_eq_or (signals : Schedule) (k : Nat) (m : Machine σ) :
    m.hear signals k = m ∨ m.hear signals k = m.requestPause := by
  unfold hear
  split
  · exact .inr rfl
  · exact .inl rfl

theorem status_hear (signals : Schedule) (k : Nat) (m : Machine σ) :
    (m.hear signals k).status = m.status := by
  obtain h | h := hear_eq_or signals k m <;> rw [h]
  rfl

theorem hear_of_signal (h : signals k = true) (m : Machine σ) :
    m.hear signals k = m.requestPause := by
  unfold hear
  rw [if_pos h]

namespace Activity

variable {a : Activity σ}

theorem turn_of_ended (ha : a.ended = true) : a.turn S = a := by
  unfold turn
  rw [if_pos ha]

theorem turn_of_not_executing (hs : a.machine.status ≠ .executing) :
    a.turn S = { a with ended := true } := by
  unfold turn
  rw [if_pos hs]
  split
  · next ha => rw [← ha]
  · rfl

theorem turn_of_pause (ha : a.ended = false) (hs : a.machine.status = .executing)
    (hp : a.machine.pauseRequested = true) :
    a.turn S =
      { a with
        machine := { a.machine with pauseRequested := false }.setStatus .ready
        ended := true } := by
  unfold turn
  rw [ha, if_neg (by decide), if_neg (not_not_intro hs), if_pos hp]

theorem turn_of_limit (hl : a.left = 0) (hp : a.machine.pauseRequested = false) :
    a.turn S = { a with ended := true } := by
  unfold turn
  split
  · next ha => rw [← ha]
  · split
    · rfl
    · rw [hp, if_neg (by decide), hl]

theorem turn_of_cycle {left : Nat} (ha : a.ended = false) (hs : a.machine.status = .executing)
    (hp : a.machine.pauseRequested = false) (hl : a.left = left + 1) :
    a.turn S =
      { a with
        machine := (a.machine.cycle S).2.stopAtBreakpoint
        executed := a.executed + 1
        left } := by
  unfold turn
  rw [ha, if_neg (by decide), if_neg (not_not_intro hs), hp, if_neg (by decide), hl]

/-- A turn after which the run goes on has executed a cycle. -/
theorem cycle_of_not_ended (h : (a.turn S).ended = false) :
    a.machine.status = .executing ∧
      (a.turn S).machine = (a.machine.cycle S).2.stopAtBreakpoint := by
  have ha : a.ended = false := by
    by_contra ha
    rw [turn_of_ended (Bool.eq_true_of_not_eq_false ha)] at h
    exact ha h
  have hs : a.machine.status = .executing := by
    by_contra hs
    rw [turn_of_not_executing hs] at h
    cases h
  have hp : a.machine.pauseRequested = false := by
    by_contra hp
    rw [turn_of_pause ha hs (Bool.eq_true_of_not_eq_false hp)] at h
    cases h
  cases hl : a.left with
  | zero =>
    rw [turn_of_limit hl hp] at h
    cases h
  | succ left =>
    rw [turn_of_cycle ha hs hp hl]
    exact ⟨hs, rfl⟩

end Activity

theorem activity_succ (S : System σ) (signals : Schedule) (limit : Nat) (m : Machine σ) (k : Nat) :
    m.activity S signals limit (k + 1) = (m.activityTop S signals limit k).turn S := rfl

/-- As long as the loop goes on, what is left of it is what is left of the run. When it has ended it
has come to what the run gives, and all that can happen is that others ask for a pause. -/
def Activity.LeadsTo (S : System σ) (signals : Schedule) (r : Nat × Machine σ) (k : Nat)
    (a : Activity σ) : Prop :=
  a.ended = false ∧ a.executed = k ∧ continueRun S signals k a.left a.machine = r ∨
    a.ended = true ∧ a.executed = r.1 ∧ r.1 < k ∧
      (a.machine = r.2 ∨ a.machine = r.2.requestPause)

theorem Activity.leadsTo_start (S : System σ) (signals : Schedule) (limit : Nat) (m : Machine σ) :
    (start limit m).LeadsTo S signals (m.runScheduled S signals limit) 0 := by
  refine .inl ⟨rfl, rfl, ?_⟩
  unfold runScheduled start
  dsimp only
  cases h : m.status.isResumable with
  | true => rfl
  | false =>
    refine continueRun_of_not_executing S signals 0 limit fun hs => ?_
    rw [if_neg (by decide)] at hs
    rw [hs] at h
    cases h

theorem Activity.LeadsTo.turn {r : Nat × Machine σ} {a : Activity σ}
    (h : a.LeadsTo S signals r k) : ((a.hear signals k).turn S).LeadsTo S signals r (k + 1) := by
  obtain ⟨ha, he, hr⟩ | ⟨ha, he, hk, hm⟩ := h
  · obtain hs | ⟨hs, hp⟩ | ⟨hs, hp⟩ := turn_cases signals k a.machine
    · rw [continueRun_of_not_executing S signals k _ hs] at hr
      subst hr
      rw [turn_of_not_executing (a := a.hear signals k) ((status_hear signals k _).trans_ne hs)]
      exact .inr ⟨rfl, he, Nat.lt_succ_self k, hear_eq_or signals k a.machine⟩
    · rw [continueRun_of_pause S _ hs hp] at hr
      subst hr
      rw [turn_of_pause (a := a.hear signals k) ha ((status_hear signals k a.machine).trans hs) hp]
      exact .inr ⟨rfl, he, Nat.lt_succ_self k, .inl rfl⟩
    · have hh := hear_of_not_pauseRequested hp
      cases hl : a.left with
      | zero =>
        rw [hl, continueRun_zero S hp] at hr
        subst hr
        rw [turn_of_limit (a := a.hear signals k) hl hp]
        exact .inr ⟨rfl, he, Nat.lt_succ_self k, .inl hh⟩
      | succ left =>
        rw [hl, continueRun_succ S left hs hp] at hr
        rw [turn_of_cycle (a := a.hear signals k) ha ((status_hear signals k _).trans hs) hp hl]
        refine .inl ⟨ha, congrArg (· + 1) he, ?_⟩
        change continueRun S signals (k + 1) left
          ((a.machine.hear signals k).cycle S).2.stopAtBreakpoint = r
        rw [hh]
        exact hr
  · rw [turn_of_ended (a := a.hear signals k) ha]
    refine .inr ⟨ha, he, Nat.lt_succ_of_lt hk, ?_⟩
    obtain hh | hh := hear_eq_or signals k a.machine
    · obtain hm | hm := hm
      · exact .inl (hh.trans hm)
      · exact .inr (hh.trans hm)
    · refine .inr (hh.trans ?_)
      obtain hm | hm := hm <;> rw [hm]
      rfl

theorem leadsTo_activity (S : System σ) (signals : Schedule) (limit : Nat) (m : Machine σ)
    (k : Nat) :
    (m.activity S signals limit k).LeadsTo S signals (m.runScheduled S signals limit) k := by
  induction k with
  | zero => exact Activity.leadsTo_start S signals limit m
  | succ k ih => exact ih.turn

theorem ended_activity_iff (S : System σ) (signals : Schedule) (limit : Nat) (m : Machine σ)
    (k : Nat) :
    (m.activity S signals limit k).ended = true ↔ (m.runScheduled S signals limit).1 < k := by
  obtain ⟨ha, -, hr⟩ | ⟨ha, -, hk, -⟩ := leadsTo_activity S signals limit m k
  · have hle := le_continueRun_fst S signals k (m.activity S signals limit k).left
      (m.activity S signals limit k).machine
    rw [hr] at hle
    rw [ha]
    exact iff_of_false (by decide) (Nat.not_lt_of_ge hle)
  · exact iff_of_true ha hk

theorem activity_of_le (h : k ≤ (m.runScheduled S signals limit).1) :
    let a := m.activity S signals limit k
    a.ended = false ∧ a.executed = k ∧
      continueRun S signals k a.left a.machine = m.runScheduled S signals limit := by
  obtain h' | ⟨-, -, hk, -⟩ := leadsTo_activity S signals limit m k
  · exact h'
  · exact absurd h (Nat.not_le_of_lt hk)

/-- A run that finds the flag up ends there. -/
theorem runScheduled_of_pause (h : k ≤ (m.runScheduled S signals limit).1)
    (hs : (m.activityTop S signals limit k).machine.status = .executing)
    (hp : (m.activityTop S signals limit k).machine.pauseRequested = true) :
    let top := m.activityTop S signals limit k
    let r := m.runScheduled S signals limit
    r = (k, { top.machine with pauseRequested := false }.setStatus .ready) ∧
      m.activity S signals limit (k + 1) = { top with machine := r.2, ended := true } := by
  obtain ⟨ha, -, hr⟩ := activity_of_le h
  have hr' := continueRun_of_pause S (m.activity S signals limit k).left
    ((status_hear signals k _).symm.trans hs) hp
  rw [hr] at hr'
  refine ⟨hr', ?_⟩
  rw [hr', activity_succ,
    Activity.turn_of_pause (a := m.activityTop S signals limit k) ha hs hp]
  rfl

/-- A run that is found stopped takes no notice of the flag. -/
theorem runScheduled_of_stop (h : k ≤ (m.runScheduled S signals limit).1)
    (hs : (m.activityTop S signals limit k).machine.status ≠ .executing) :
    m.runScheduled S signals limit = (k, (m.activity S signals limit k).machine) ∧
      m.activity S signals limit (k + 1) =
        { m.activityTop S signals limit k with ended := true } := by
  obtain ⟨-, -, hr⟩ := activity_of_le h
  have hs' : (m.activity S signals limit k).machine.status ≠ .executing :=
    fun e => hs ((status_hear signals k _).trans e)
  rw [continueRun_of_not_executing S signals k _ hs'] at hr
  exact ⟨hr.symm, Activity.turn_of_not_executing hs⟩

theorem pauseRequested_of_signal (S : System σ) (limit : Nat) (m : Machine σ)
    (h : signals k = true) : (m.activityTop S signals limit k).machine.pauseRequested = true := by
  change ((m.activity S signals limit k).machine.hear signals k).pauseRequested = true
  rw [hear_of_signal h]
  rfl

theorem runScheduled_fst_le_of_signal (S : System σ) (limit : Nat) (m : Machine σ)
    (h : signals k = true) : (m.runScheduled S signals limit).1 ≤ k := by
  by_contra hk
  have hle := Nat.le_of_lt (Nat.lt_of_not_le hk)
  have hr : (m.runScheduled S signals limit).1 = k := by
    by_cases hs : (m.activityTop S signals limit k).machine.status = .executing
    · have hup := pauseRequested_of_signal S limit m h
      exact congrArg Prod.fst (runScheduled_of_pause hle hs hup).1
    · exact congrArg Prod.fst (runScheduled_of_stop hle hs).1
  exact hk (Nat.le_of_eq hr)

/-- The flag is taken down where the run ends, if at all. -/
theorem TakesFlag.eq (h : m.TakesFlag S signals limit k) :
    k = (m.runScheduled S signals limit).1 := by
  obtain ⟨hup, hdown⟩ := h
  by_cases hk : k ≤ (m.runScheduled S signals limit).1
  · by_cases hs : (m.activityTop S signals limit k).machine.status = .executing
    · rw [(runScheduled_of_pause hk hs hup).1]
    · rw [(runScheduled_of_stop hk hs).2] at hdown
      exact absurd (hup.symm.trans hdown) (by decide)
  · have ha := (ended_activity_iff S signals limit m k).mpr (Nat.lt_of_not_le hk)
    rw [activity_succ, Activity.turn_of_ended (a := m.activityTop S signals limit k) ha] at hdown
    exact absurd (hup.symm.trans hdown) (by decide)

theorem runScheduled_of_pauseRequested (S : System σ) (signals : Schedule) (limit : Nat)
    (h : m.status.isResumable = true) (hp : m.pauseRequested = true) :
    m.runScheduled S signals limit =
      (0, { m.setStatus .executing with pauseRequested := false }.setStatus .ready) := by
  have hup : ((m.setStatus .executing).hear signals 0).pauseRequested = true := by
    obtain hh | hh := hear_eq_or signals 0 (m.setStatus .executing)
    · rw [hh, setStatus_eq]
      exact hp
    · rw [hh]
      rfl
  unfold runScheduled
  rw [if_pos h, continueRun_of_pause S limit (status_setStatus m _) hup]
  obtain hh | hh := hear_eq_or signals 0 (m.setStatus .executing) <;> rw [hh]
  rfl

/-! ### Requests in between -/

/-- The request neither resets the machine nor runs it, unless it cannot be run. -/
def Request.Spares (m : Machine Monitor) : Request → Prop
  | load _ | reset => False
  | run _ _ => m.status.isResumable = false
  | _ => True

def Spared : List Request → Machine Monitor → Prop
  | [], _ => True
  | r :: rs, m => r.Spares m ∧ Spared rs (r.perform m).2

theorem pauseRequested_setStatus (m : Machine σ) (status : Status) :
    (m.setStatus status).pauseRequested = m.pauseRequested := by
  rw [setStatus_eq]

theorem pauseRequested_pause (m : Machine σ) : m.pause.pauseRequested = m.pauseRequested :=
  kept_pause (P := fun n => n.pauseRequested = m.pauseRequested)
    (fun {n} s h => (pauseRequested_setStatus n s).trans h) rfl

theorem setStatus_requestPause (m : Machine σ) (status : Status) :
    m.requestPause.setStatus status = (m.setStatus status).requestPause := by
  change (if m.status = status then _ else _) = _
  unfold setStatus
  split <;> rfl

end Machine

namespace Monitor

open Minicomputer.Machine Minicomputer.Action

variable {signals : Schedule} {limit k : Nat} {m n : Machine Monitor}

/-! ### Instructions and the flag -/

theorem congruence_requestPause :
    Congruence Eq fun m n : Machine Monitor => n = m.requestPause where
  registers := by rintro m _ rfl; rfl
  memory := by rintro m _ rfl; rfl
  debugInfo := by rintro m _ rfl; rfl
  setRegister := by rintro m _ r _ w rfl; rfl
  setTestFlag := by rintro m _ value rfl; rfl
  setMemory := by rintro m _ memory rfl; rfl
  announce := by rintro m _ news rfl; rfl
  print := by rintro m _ s rfl; rfl
  note := by rintro m _ entry rfl; rfl
  system := by rintro m _ rfl; exact rel_eq_iff.mpr rfl
  setSystem := by
    rintro m _ s t rfl hs
    obtain rfl := rel_eq_iff.mp hs
    rfl
  generator e := congrArg _ e
  setGenerator _ e := e ▸ rfl
  setStatus := by
    rintro m _ status _ rfl
    exact setStatus_requestPause m status

/-- A pause that is asked for during a cycle is one asked for after it. -/
theorem cycle_requestPause (m : Machine Monitor) :
    m.requestPause.cycle system = ((m.cycle system).1, (m.cycle system).2.requestPause) := by
  have htick {m n : Machine Monitor} (h : n = m.requestPause) : n.tick = m.tick.requestPause := by
    rw [h]
    rfl
  have hfail {m n : Machine Monitor} (e : Fault) (h : n = m.requestPause) :
      n.fail e = (m.fail e).requestPause := by
    rw [h]
    exact setStatus_requestPause
      { m with registers := m.registers.setErrorFlag true, fault := some e } .permanentError
  have hreads : ReadsAlike (fun m n => n = m.requestPause) m m.requestPause := by
    rintro _ _ _ m' _ rfl _ _
    exact .of_eq rfl fun console => rfl
  have h := agree_cycle congruence_requestPause htick hfail (m := m) (.inl rfl)
    (fun _ _ _ => congrArg _) hreads
  exact Prod.ext h.1.symm h.2

theorem step_requestPause (m : Machine Monitor) :
    m.requestPause.step system = ((m.step system).1, (m.step system).2.requestPause) := by
  unfold Machine.step
  change (if m.status.isResumable then _ else _) = _
  split
  · rw [setStatus_requestPause, cycle_requestPause]
  · rfl

theorem pauseRequested_step (m : Machine Monitor) :
    (m.step system).2.pauseRequested = m.pauseRequested :=
  kept_step system (P := fun n => n.pauseRequested = m.pauseRequested)
    (fun {n} s h => (pauseRequested_setStatus n s).trans h)
    (fun {n} h => (cycle_pauseRequested n).trans h) rfl

/-! ### What is left of a request that comes too late -/

theorem pauseRequested_perform {r : Request} (h : r.Spares m) (hp : m.pauseRequested = true) :
    (r.perform m).2.pauseRequested = true := by
  have hwritten (x : Except MemoryFault (Machine Monitor))
      (hx : ∀ n, x = .ok n → n.pauseRequested = true) :
      (respondWritten m x).2.pauseRequested = true := by
    cases x with
    | ok n => exact hx n rfl
    | error e => exact hp
  cases r with
  | load | reset => exact h.elim
  | step => exact (pauseRequested_step m).trans hp
  | run signals limit =>
    change (m.runScheduled system signals limit).2.pauseRequested = true
    rw [runScheduled_of_not_isResumable system signals limit h]
    exact hp
  | pause => exact (pauseRequested_pause m).trans hp
  | requestPause => rfl
  | writeByte a b =>
    refine hwritten (m.writeByte a b) fun n hn => ?_
    unfold Machine.writeByte at hn
    cases hw : m.memory.writeByte a b <;> rw [hw] at hn <;> cases hn
    exact hp
  | writeWord a w =>
    refine hwritten (m.writeWord a w) fun n hn => ?_
    unfold Machine.writeWord at hn
    cases hw : m.memory.writeWord a w <;> rw [hw] at hn <;> cases hn
    exact hp
  | setSpeed | addBreakpoint | removeBreakpoint | provideInput | takeOutput | print | setRegister
  | edit | elapse => exact hp

theorem pauseRequested_performAll {rs : List Request} (h : Spared rs m)
    (hp : m.pauseRequested = true) : (performAll rs m).2.pauseRequested = true := by
  induction rs generalizing m with
  | nil => exact hp
  | cons r rs ih => exact ih h.2 (pauseRequested_perform h.1 hp)

/-- The flag stays up until a run takes it down, which executes nothing. -/
theorem pending_performAll {rs : List Request} (h : Spared rs m) (hp : m.pauseRequested = true) :
    let n := (performAll rs m).2
    n.pauseRequested = true ∧
      (n.status.isResumable = true → ∀ signals limit, n.runScheduled system signals limit =
        (0, { n.setStatus .executing with pauseRequested := false }.setStatus .ready)) := by
  have hn := pauseRequested_performAll h hp
  exact ⟨hn, fun hs signals limit => runScheduled_of_pauseRequested system signals limit hs hn⟩

/-! ### Why runs end -/

/-- Only a pause makes a machine ready. -/
theorem status_cycle_ne_ready (hm : m.status = .executing) :
    (m.cycle system).2.stopAtBreakpoint.status ≠ .ready := by
  have hc : (m.cycle system).2.status ≠ .ready := by
    obtain ⟨i, n, hn, hc⟩ | ⟨e, n, -, hc⟩ := cycle_cases m <;> rw [hc] <;> dsimp only
    · change n.status ≠ .ready
      obtain hs | hs | hs := hn.status <;> rw [hs]
      · rw [hm]
        decide
      · decide
      · decide
    · have hs : (n.fail e).status = .permanentError := status_setStatus _ _
      rw [hs]
      decide
  obtain hb | ⟨-, -, hb⟩ := (m.cycle system).2.stopAtBreakpoint_cases <;> rw [hb]
  · exact hc
  · rw [status_setStatus]
    decide

theorem status_activity_ne_ready (h : (m.activity system signals limit k).ended = false) :
    (m.activity system signals limit k).machine.status ≠ .ready := by
  cases k with
  | zero =>
    change (if m.status.isResumable then m.setStatus .executing else m).status ≠ .ready
    split
    · rw [status_setStatus]
      decide
    · next hm =>
      intro hs
      rw [hs] at hm
      exact hm rfl
  | succ k =>
    rw [activity_succ] at h ⊢
    obtain ⟨hs, hm⟩ := Activity.cycle_of_not_ended h
    rw [hm]
    exact status_cycle_ne_ready hs

/-- A request made while a run goes on ends it, or finds it ended by something else than a pause or
its limit. -/
theorem request_ends_or_waits (hk : k ≤ (m.runScheduled system signals limit).1)
    (h : signals k = true) :
    let r := m.runScheduled system signals limit
    m.TakesFlag system signals limit k ∧ r.2.status = .ready ∧ r.2.pauseRequested = false ∨
      (r.2.status ≠ .executing ∧ r.2.status ≠ .ready) ∧
        (m.activity system signals limit (k + 1)).machine = r.2.requestPause := by
  have hup := pauseRequested_of_signal system limit m h
  by_cases hs : (m.activityTop system signals limit k).machine.status = .executing
  · obtain ⟨hr, hnext⟩ := runScheduled_of_pause hk hs hup
    have hdown : (m.runScheduled system signals limit).2.pauseRequested = false := by
      rw [hr]
      exact pauseRequested_setStatus _ _
    refine .inl ⟨⟨hup, ?_⟩, ?_, hdown⟩
    · rw [hnext]
      exact hdown
    · rw [hr]
      exact status_setStatus _ _
  · obtain ⟨hr, hnext⟩ := runScheduled_of_stop hk hs
    have hready := status_activity_ne_ready (activity_of_le hk).1
    have hexecuting : (m.activity system signals limit k).machine.status ≠ .executing :=
      fun e => hs ((status_hear signals k _).trans e)
    refine .inr ⟨?_, ?_⟩ <;> rw [hr]
    · exact ⟨hexecuting, hready⟩
    · rw [hnext]
      exact hear_of_signal h _

/-- Every request to pause ends a run. What executes never takes the flag down; a run takes it down
at most once, in the turn in which it ends, and executes nothing in that turn, whatever is left of
its limit. A request made while a run goes on ends it, or finds it ended by an exit, a fault, a wait
or a breakpoint. Then the flag stays up through whatever is done to the machine short of a reset,
and the next run ends before its first instruction. -/
theorem no_pause_lost (signals : Schedule) (limit : Nat) (m : Machine Monitor) :
    let top := m.activityTop system signals limit
    let next k := m.activity system signals limit (k + 1)
    let r := m.runScheduled system signals limit
    ((∀ k, (next k).ended = true ↔ r.1 ≤ k) ∧ (next r.1).executed = r.1 ∧
        ((next r.1).machine = r.2 ∨ (next r.1).machine = r.2.requestPause)) ∧
      (∀ k ≤ r.1, (top k).machine.status = .executing → (top k).machine.pauseRequested = true →
        r = (k, { (top k).machine with pauseRequested := false }.setStatus .ready) ∧
          next k = { top k with machine := r.2, ended := true }) ∧
      (∀ k, signals k = true → r.1 ≤ k) ∧
      (∀ j k, m.TakesFlag system signals limit j → m.TakesFlag system signals limit k → j = k) ∧
      (∀ n : Machine Monitor, (n.step system).2.pauseRequested = n.pauseRequested ∧
        n.requestPause.step system = ((n.step system).1, (n.step system).2.requestPause)) ∧
      ∀ k ≤ r.1, signals k = true →
        m.TakesFlag system signals limit k ∧ r.2.status = .ready ∧ r.2.pauseRequested = false ∨
          (r.2.status = .finished ∨ r.2.status = .permanentError ∨ r.2.status = .waiting ∨
              r.2.status = .breakpoint) ∧
            (next k).machine = r.2.requestPause ∧
            ∀ rs, Spared rs (next k).machine →
              let n := (performAll rs (next k).machine).2
              n.pauseRequested = true ∧
                (n.status.isResumable = true → ∀ signals limit,
                  n.runScheduled system signals limit = (0, { n.setStatus .executing with
                    pauseRequested := false }.setStatus .ready)) := by
  intro top next r
  have hended (k : Nat) : (next k).ended = true ↔ r.1 ≤ k :=
    (ended_activity_iff system signals limit m (k + 1)).trans Nat.lt_succ_iff
  refine ⟨⟨hended, ?_⟩, fun k hk hs hp => runScheduled_of_pause hk hs hp,
    fun k => runScheduled_fst_le_of_signal system limit m, fun j k hj hk => hj.eq.trans hk.eq.symm,
    fun n => ⟨pauseRequested_step n, step_requestPause n⟩, fun k hk h => ?_⟩
  · obtain ⟨ha, -, -⟩ | ⟨-, he, -, hm⟩ := leadsTo_activity system signals limit m (r.1 + 1)
    · exact absurd ((hended r.1).mpr (Nat.le_refl _)) (ha ▸ by decide)
    · exact ⟨he, hm⟩
  · obtain ht | ⟨⟨hexecuting, hready⟩, hn⟩ := request_ends_or_waits hk h
    · exact .inl ht
    · refine .inr ⟨Status.stopped_of_ne hexecuting hready, hn, fun rs hrs => ?_⟩
      refine pending_performAll hrs ?_
      change (m.activity system signals limit (k + 1)).machine.pauseRequested = true
      rw [hn]
      rfl

/-- A request that comes when the machine already waits for input ends the run after the answer. -/
theorem no_pause_lost_twoReads :
    let m := loaded twoReads 1
    let signals : Schedule := (· == 1)
    let r := m.runScheduled system signals 10
    let n := (performAll [.provideInput "xy", .pause] (m.activity system signals 10 2).machine).2
    signals 1 = true ∧ r.1 = 1 ∧ r.2.status = .waiting ∧
      Spared [.provideInput "xy", .pause] (m.activity system signals 10 2).machine ∧
      n.status = .ready ∧ (n.run system).1 = 0 ∧ (n.run system).2.status = .ready := by
  have hcount : ((loaded twoReads 1).runScheduled system (· == 1) 10).1 = 1 := by decide +kernel
  have hstatus : ((loaded twoReads 1).runScheduled system (· == 1) 10).2.status = .waiting := by
    decide +kernel
  have hready : (performAll [.provideInput "xy", .pause]
      ((loaded twoReads 1).activity system (· == 1) 10 2).machine).2.status = .ready := by
    decide +kernel
  have hspared : Spared [.provideInput "xy", .pause]
      ((loaded twoReads 1).activity system (· == 1) 10 2).machine := ⟨trivial, trivial, trivial⟩
  obtain ⟨-, -, -, -, -, h⟩ := no_pause_lost (· == 1) 10 (loaded twoReads 1)
  obtain ⟨-, hs, -⟩ | ⟨-, -, h⟩ := h 1 (Nat.le_of_eq hcount.symm) rfl
  · rw [hstatus] at hs
    cases hs
  · have hrun := (h _ hspared).2 (by rw [hready]; rfl) undisturbed unlimited
    refine ⟨rfl, hcount, hstatus, hspared, hready, ?_⟩
    generalize (performAll _ _).2 = n at hrun ⊢
    change n.run system = _ at hrun
    rw [hrun]
    exact ⟨rfl, status_setStatus _ _⟩

end Monitor
end Minicomputer
