import Minicomputer.Debugger
import Minicomputer.Proofs.Monitor.Pausing

/-!
# Debugging

What a user does at a debugger changes two states that have to fit together: whether the machine is
run in portions, and what the machine is doing. After each portion the one follows from the other,
and all portions together are one run of the machine. Breakpoints are at the addresses that were
toggled an odd number of times.
-/

set_option autoImplicit false

namespace Minicomputer

namespace Monitor

open Minicomputer.Machine

variable {l m n : Machine Monitor}

/-- The breakpoints are the same, and no pause is asked for that was not asked for before. -/
structure Quiet (m n : Machine Monitor) : Prop where
  breakpoints : n.breakpoints = m.breakpoints
  pauseRequested : m.pauseRequested = false → n.pauseRequested = false

theorem quiet_refl (m : Machine Monitor) : Quiet m m := ⟨rfl, id⟩

theorem Quiet.trans (h : Quiet l m) (hm : Quiet m n) : Quiet l n :=
  ⟨hm.breakpoints.trans h.breakpoints, fun hp => hm.pauseRequested (h.pauseRequested hp)⟩

theorem quiet_setStatus (m : Machine Monitor) (status : Status) : Quiet m (m.setStatus status) := by
  rw [setStatus_eq]
  exact ⟨rfl, id⟩

theorem quiet_cycle (m : Machine Monitor) : Quiet m (m.cycle system).2 := by
  refine ⟨?_, fun hp => (cycle_pauseRequested m).trans hp⟩
  obtain ⟨i, n, hn, hc⟩ | ⟨e, n, hn, hc⟩ := cycle_cases m <;> rw [hc]
  · exact hn.breakpoints
  · dsimp only
    rw [fail_eq]
    exact hn.breakpoints

theorem quiet_stopAtBreakpoint (m : Machine Monitor) : Quiet m m.stopAtBreakpoint :=
  kept_stopAtBreakpoint (fun s h => h.trans (quiet_setStatus _ s)) (quiet_refl m)

theorem quiet_runLimited (limit : Nat) (m : Machine Monitor) :
    Quiet m (m.runLimited system limit).2 := by
  cases hm : m.status.isResumable with
  | false =>
    rw [runLimited_of_not_isResumable system limit hm]
    exact quiet_refl m
  | true =>
    refine runLimited_induction (P := fun _ n => Quiet m n) system (fun {_ n} _ _ h => ?_)
      (fun {_ n} _ h => ?_) limit hm (quiet_setStatus m _)
    · have hn : Quiet m { n with pauseRequested := false } := ⟨h.breakpoints, fun _ => rfl⟩
      exact hn.trans (quiet_setStatus _ _)
    · exact (h.trans (quiet_cycle n)).trans (quiet_stopAtBreakpoint _)

theorem quiet_step (m : Machine Monitor) : Quiet m (m.step system).2 :=
  kept_step system (fun s h => h.trans (quiet_setStatus _ s)) (fun h => h.trans (quiet_cycle _))
    (quiet_refl m)

theorem quiet_pause (m : Machine Monitor) : Quiet m m.pause :=
  kept_pause (fun s h => h.trans (quiet_setStatus _ s)) (quiet_refl m)

theorem quiet_load (p : Program) (m : Machine Monitor) : Quiet m (m.load system p).2 := by
  have hreset : Quiet m (m.reset system) := by
    unfold Machine.reset
    dsimp only
    rw [setStatus_eq]
    exact ⟨rfl, fun _ => rfl⟩
  unfold Machine.load
  dsimp only
  split
  · exact hreset
  · split <;> exact ⟨hreset.breakpoints, hreset.pauseRequested⟩

theorem status_runLimited_ne_ready (hm : m.status.isResumable = true)
    (hp : m.pauseRequested = false) (limit : Nat) :
    (m.runLimited system limit).2.status ≠ .ready := by
  have start : (m.setStatus .executing).pauseRequested = false ∧
      (m.setStatus .executing).status ≠ .ready := by
    refine ⟨(quiet_setStatus m _).pauseRequested hp, ?_⟩
    rw [status_setStatus]
    decide
  refine (runLimited_induction (P := fun _ n => n.pauseRequested = false ∧ n.status ≠ .ready)
    system (fun _ hq h => ?_) (fun {_ n} hs h => ?_) limit hm start).2
  · rw [h.1] at hq
    cases hq
  · exact ⟨((quiet_cycle n).trans (quiet_stopAtBreakpoint _)).pauseRequested h.1,
      status_cycle_ne_ready hs⟩

end Monitor

namespace Debugger

open Minicomputer.Machine Minicomputer.Monitor

/-- What a user does at a debugger. -/
inductive Operation where
  | step
  | run
  | pause
  | tick
  | type (s : String)
  | submit
  | toggleBreakpoint
  | reset
  | scrollMemory (rows : Int)
  deriving DecidableEq

def Operation.apply (d : Debugger) : Operation → Debugger
  | step => d.step
  | run => d.run
  | pause => d.pause
  | tick => d.tick
  | type s => d.type s
  | submit => d.submit
  | toggleBreakpoint => d.toggleBreakpoint
  | reset => d.reset
  | scrollMemory rows => d.scrollMemory rows

variable {d e : Debugger}

/-! ### What operations do to machine and view -/

theorem machine_report (d : Debugger) : d.report.machine = d.machine := by
  unfold report
  split <;> rfl

theorem scroll_report (d : Debugger) : d.report.scroll = d.scroll := by
  unfold report
  split <;> rfl

theorem running_report (d : Debugger) :
    d.report.running = true ↔ d.running = true ∧
        (d.machine.status = .executing ∨ d.machine.status = .ready ∨
          d.machine.status = .waiting) := by
  unfold report
  split <;> simp_all

theorem machine_step (d : Debugger) : d.step.machine = (d.machine.step system).2 := by
  unfold step
  split
  · split
    · next he => rw [machine_report, he]
    · next he => rw [he]
  · next hm => rw [step_of_not_isResumable system (Bool.eq_false_of_not_eq_true hm)]

theorem scroll_step (d : Debugger) : d.step.scroll = d.scroll := by
  unfold step
  split
  · split
    · exact scroll_report _
    · rfl
  · rfl

theorem machine_run (d : Debugger) : d.run.machine = d.machine := by
  unfold run
  split <;> rfl

theorem scroll_run (d : Debugger) : d.run.scroll = d.scroll := by
  unfold run
  split <;> rfl

theorem tick_eq (h : d.running = true) :
    d.tick = { d with machine := (d.machine.runLimited system portion).2 }.report := by
  unfold tick
  rw [if_pos h]

theorem tick_of_not_running (h : d.running = false) : d.tick = d := by
  unfold tick
  rw [h]
  rfl

theorem machine_tick (h : d.running = true) :
    d.tick.machine = (d.machine.runLimited system portion).2 := by
  rw [tick_eq h, machine_report]

theorem scroll_tick (d : Debugger) : d.tick.scroll = d.scroll := by
  cases h : d.running with
  | false => rw [tick_of_not_running h]
  | true => rw [tick_eq h, scroll_report]

theorem scroll_toggleBreakpoint (d : Debugger) : d.toggleBreakpoint.scroll = d.scroll := by
  unfold toggleBreakpoint
  dsimp only
  split <;> rfl

theorem pauseRequested_toggleBreakpoint (d : Debugger) :
    d.toggleBreakpoint.machine.pauseRequested = d.machine.pauseRequested := by
  unfold toggleBreakpoint
  dsimp only
  split <;> rfl

/-! ### Breakpoints -/

theorem breakpoints_toggle (d : Debugger) :
    d.toggleBreakpoint.machine.breakpoints =
      if d.machine.pc ∈ d.machine.breakpoints then d.machine.breakpoints.erase d.machine.pc
      else (d.machine.addBreakpoint d.machine.pc).breakpoints := by
  unfold toggleBreakpoint removeBreakpoint
  by_cases h : d.machine.pc ∈ d.machine.breakpoints
  · simp [h]
  · simp only [h, List.contains_iff_mem, if_false, List.erase_of_not_mem h]

theorem mem_breakpoints_toggle (h : d.machine.breakpoints.Pairwise (· < ·)) (a : Word) :
    a ∈ d.toggleBreakpoint.machine.breakpoints ↔
      (a ∈ d.machine.breakpoints ↔ a ≠ d.machine.pc) := by
  have hn : d.machine.breakpoints.Nodup := h.imp fun hab => UInt16.ne_of_lt hab
  rw [breakpoints_toggle]
  split
  · next hpc =>
    rw [hn.mem_erase_iff]
    by_cases ha : a = d.machine.pc <;> simp [ha, hpc]
  · next hpc =>
    rw [mem_breakpoints_addBreakpoint]
    by_cases ha : a = d.machine.pc <;> simp [ha, hpc]

theorem pairwise_breakpoints_toggle (h : d.machine.breakpoints.Pairwise (· < ·)) :
    d.toggleBreakpoint.machine.breakpoints.Pairwise (· < ·) := by
  rw [breakpoints_toggle]
  split
  · exact h.sublist List.erase_sublist
  · exact pairwise_breakpoints_addBreakpoint h _

/-- Only a toggle sets or removes a breakpoint. -/
theorem quiet_apply {op : Operation} (h : op ≠ .toggleBreakpoint) (d : Debugger) :
    Quiet d.machine (op.apply d).machine := by
  cases op with
  | step => exact (machine_step d).symm ▸ quiet_step d.machine
  | run => exact (machine_run d).symm ▸ quiet_refl d.machine
  | pause => exact quiet_pause d.machine
  | tick =>
    change Quiet d.machine d.tick.machine
    cases hr : d.running with
    | false =>
      rw [tick_of_not_running hr]
      exact quiet_refl _
    | true =>
      rw [machine_tick hr]
      exact quiet_runLimited portion d.machine
  | submit =>
    have hp := quiet_pause (d.machine.provideInput (d.input ++ "\n"))
    exact ⟨hp.breakpoints, hp.pauseRequested⟩
  | toggleBreakpoint => exact absurd rfl h
  | reset => exact quiet_load d.program d.machine
  | type | scrollMemory => exact quiet_refl _

/-! ### Sequences of operations -/

/-- What holds of a debugger whatever the user has done at it. -/
structure Orderly (d : Debugger) : Prop where
  breakpoints : d.machine.breakpoints.Pairwise (· < ·)
  pauseRequested : d.machine.pauseRequested = false
  scroll : d.scroll ≤ lastRow

theorem breakpoints_new (monitor : Monitor) (program : Program) :
    (new monitor program).machine.breakpoints = [] :=
  (quiet_load program (Machine.new monitor)).breakpoints

theorem orderly_new (monitor : Monitor) (program : Program) : Orderly (new monitor program) := by
  refine ⟨?_, (quiet_load program (Machine.new monitor)).pauseRequested rfl, Nat.zero_le _⟩
  rw [breakpoints_new]
  exact List.Pairwise.nil

theorem scroll_apply (op : Operation) (d : Debugger) :
    (op.apply d).scroll = d.scroll ∨ (op.apply d).scroll ≤ lastRow := by
  cases op with
  | step => exact .inl (scroll_step d)
  | run => exact .inl (scroll_run d)
  | tick => exact .inl (scroll_tick d)
  | toggleBreakpoint => exact .inl (scroll_toggleBreakpoint d)
  | scrollMemory rows => exact .inr (Nat.min_le_right _ _)
  | pause | type | submit | reset => exact .inl rfl

theorem Orderly.apply (h : Orderly d) (op : Operation) : Orderly (op.apply d) := by
  have hscroll : (op.apply d).scroll ≤ lastRow := by
    obtain hs | hs := scroll_apply op d
    · rw [hs]
      exact h.scroll
    · exact hs
  by_cases hop : op = .toggleBreakpoint
  · subst hop
    exact ⟨pairwise_breakpoints_toggle h.breakpoints,
      (pauseRequested_toggleBreakpoint d).trans h.pauseRequested, hscroll⟩
  · have hq := quiet_apply hop d
    refine ⟨?_, hq.pauseRequested h.pauseRequested, hscroll⟩
    rw [hq.breakpoints]
    exact h.breakpoints

theorem Orderly.foldl (h : Orderly d) (ops : List Operation) :
    Orderly (ops.foldl Operation.apply d) := by
  induction ops generalizing d with
  | nil => exact h
  | cons op ops ih => exact ih (h.apply op)

/-- How often a breakpoint is toggled at an address. -/
def toggles (a : Word) (d : Debugger) : List Operation → Nat
  | [] => 0
  | op :: ops =>
    (if op = .toggleBreakpoint ∧ d.machine.pc = a then 1 else 0) + toggles a (op.apply d) ops

theorem hasBreakpoint_iff (d : Debugger) (a : Word) :
    d.hasBreakpoint a = true ↔ a ∈ d.machine.breakpoints :=
  List.contains_iff_mem

theorem hasBreakpoint_foldl (h : Orderly d) (ops : List Operation) (a : Word) :
    (ops.foldl Operation.apply d).hasBreakpoint a = true ↔
      (d.hasBreakpoint a = true ↔ ¬ Odd (toggles a d ops)) := by
  induction ops generalizing d with
  | nil => simp [toggles]
  | cons op ops ih =>
    rw [List.foldl_cons, ih (h.apply op), toggles]
    by_cases hop : op = .toggleBreakpoint
    · subst hop
      have hmem := mem_breakpoints_toggle h.breakpoints a
      rw [← hasBreakpoint_iff, ← hasBreakpoint_iff] at hmem
      change (d.toggleBreakpoint.hasBreakpoint a = true ↔ _) ↔ _
      rw [hmem]
      by_cases ha : d.machine.pc = a
      · have hodd : Odd (1 + toggles a (Operation.toggleBreakpoint.apply d) ops) ↔
            ¬ Odd (toggles a (Operation.toggleBreakpoint.apply d) ops) := by
          rw [Nat.add_comm, Nat.odd_add_one]
        simp only [ha, ne_eq, not_true, iff_false, and_self, if_true, hodd]
        tauto
      · have ha' : a ≠ d.machine.pc := Ne.symm ha
        simp [ha, ha']
    · have hb : (op.apply d).hasBreakpoint a = d.hasBreakpoint a := by
        unfold hasBreakpoint
        rw [(quiet_apply hop d).breakpoints]
      rw [hb]
      simp [hop]

/-! ### Ticks -/

theorem status_tick (h : Orderly d) (hr : d.tick.running = true) :
    d.tick.machine.status = .executing ∨ d.tick.machine.status = .waiting := by
  cases hd : d.running with
  | false =>
    rw [tick_of_not_running hd] at hr
    exact absurd (hr.symm.trans hd) (by decide)
  | true =>
    rw [tick_eq hd, running_report] at hr
    rw [machine_tick hd]
    obtain hs | hs | hs := hr.2
    · exact .inl hs
    · cases hm : d.machine.status.isResumable with
      | true => exact absurd hs (status_runLimited_ne_ready hm h.pauseRequested portion)
      | false =>
        rw [runLimited_of_not_isResumable system portion hm] at hs
        rw [hs] at hm
        cases hm
    · exact .inr hs

/-- A run that stops does so in one of the portions that it is cut into, and in none before. -/
theorem exists_last_portion {m : Machine Monitor} (hs : (m.run system).2.status ≠ .executing) :
    ∃ k, (∀ j < k, (m.runLimited system (j * portion + portion)).2.status = .executing) ∧
      m.runLimited system (k * portion + portion) = m.run system := by
  have hstops : ∃ k, (m.runLimited system (k * portion + portion)).2.status ≠ .executing := by
    have hle : unlimited ≤ unlimited * portion + portion :=
      Nat.le_add_right_of_le (Nat.le_mul_of_pos_right _ (by decide))
    refine ⟨unlimited, ?_⟩
    rw [runLimited_of_le system hle hs]
    exact hs
  refine ⟨Nat.find hstops, fun j hj => not_not.mp (Nat.find_min hstops hj), ?_⟩
  obtain hle | hle := Nat.le_total (Nat.find hstops * portion + portion) unlimited
  · exact (runLimited_of_le system hle (Nat.find_spec hstops)).symm
  · exact runLimited_of_le system hle hs

/-- Some ticks later, in the middle of the run that was begun: what is left of it is the same. -/
structure Ticking (d e : Debugger) (cycles : Nat) : Prop where
  running : e.running = true
  isResumable : e.machine.status.isResumable = true
  rest : ∀ limit, (e.machine.runLimited system limit).2 =
    (d.machine.runLimited system (cycles + limit)).2

theorem Ticking.refl (hd : d.running = true) (hm : d.machine.status.isResumable = true) :
    Ticking d d 0 :=
  ⟨hd, hm, fun limit => by rw [Nat.zero_add]⟩

theorem Ticking.tick {cycles : Nat} (h : Ticking d e cycles)
    (hs : (d.machine.runLimited system (cycles + portion)).2.status = .executing) :
    Ticking d e.tick (cycles + portion) := by
  have hm : e.tick.machine = (d.machine.runLimited system (cycles + portion)).2 :=
    (machine_tick h.running).trans (h.rest portion)
  have hs' : e.tick.machine.status = .executing := (congrArg Machine.status hm).trans hs
  refine ⟨?_, congrArg Status.isResumable hs', fun limit => ?_⟩
  · rw [tick_eq h.running, running_report]
    refine ⟨h.running, .inl ?_⟩
    rw [h.rest portion]
    exact hs
  · rw [hm, runLimited_add_of_executing system limit hs]

theorem Ticking.isWaiting {cycles : Nat} (h : Ticking d e cycles) : e.isWaiting = false := by
  have hm := h.isResumable
  unfold Debugger.isWaiting
  cases he : e.machine.status with
  | waiting =>
    rw [he] at hm
    cases hm
  | ready | executing | finished | permanentError | breakpoint => rfl

variable (hp : d.machine.pauseRequested = false) (hm : d.machine.status.isResumable = true)

include hp hm

/-- The tick in which the run ends leaves nothing to tick for. -/
theorem Ticking.last {cycles : Nat} (h : Ticking d e cycles)
    (hs : (d.machine.runLimited system (cycles + portion)).2.status ≠ .executing) :
    (e.tick.running = false ∨ e.tick.isWaiting = true) ∧
      e.tick.machine = (d.machine.runLimited system (cycles + portion)).2 := by
  have hmachine : e.tick.machine = (d.machine.runLimited system (cycles + portion)).2 :=
    (machine_tick h.running).trans (h.rest portion)
  refine ⟨?_, hmachine⟩
  by_contra hstop
  rw [not_or, Bool.not_eq_false, Bool.not_eq_true] at hstop
  obtain ⟨hrunning, hwaiting⟩ := hstop
  rw [tick_eq h.running, running_report, h.rest portion] at hrunning
  obtain ⟨-, he | hr | hw⟩ := hrunning
  · exact hs he
  · exact status_runLimited_ne_ready hm hp _ hr
  · unfold Debugger.isWaiting at hwaiting
    rw [hmachine, hw] at hwaiting
    cases hwaiting

omit hp in
theorem ticking_iterate (hd : d.running = true) (k : Nat)
    (h : ∀ j < k, (d.machine.runLimited system (j * portion + portion)).2.status = .executing) :
    Ticking d (Debugger.tick^[k] d) (k * portion) := by
  induction k with
  | zero =>
    rw [Nat.zero_mul]
    exact Ticking.refl hd hm
  | succ k ih =>
    rw [Function.iterate_succ_apply', Nat.succ_mul]
    exact (ih fun j hj => h j (Nat.lt_succ_of_lt hj)).tick (h k (Nat.lt_succ_self k))

/-- Ticks make one run. -/
theorem exists_ticks (hd : d.running = true)
    (hs : (d.machine.run system).2.status ≠ .executing) :
    ∃ k, (∀ j < k, (Debugger.tick^[j] d).running = true ∧ (Debugger.tick^[j] d).isWaiting = false) ∧
      ((Debugger.tick^[k] d).running = false ∨ (Debugger.tick^[k] d).isWaiting = true) ∧
      (Debugger.tick^[k] d).machine = (d.machine.run system).2 := by
  obtain ⟨k, hbefore, hlast⟩ := exists_last_portion hs
  have hticking (j : Nat) (hj : j ≤ k) : Ticking d (Debugger.tick^[j] d) (j * portion) :=
    ticking_iterate hm hd j fun i hi => hbefore i (Nat.lt_of_lt_of_le hi hj)
  refine ⟨k + 1, fun j hj => ?_, ?_⟩
  · have h := hticking j (Nat.le_of_lt_succ hj)
    exact ⟨h.running, h.isWaiting⟩
  · rw [← hlast] at hs ⊢
    rw [Function.iterate_succ_apply']
    exact (hticking k (Nat.le_refl k)).last hp hm hs

omit hp hm

/-- Whatever has been done at a debugger, a tick leaves it running only with a machine that executes
or waits, breakpoints are where they were toggled an odd number of times, the memory on view begins
within memory, and nobody has asked the machine for a pause. A debugger whose machine nobody has
asked for a pause makes, tick by tick, the one run that the machine makes by itself. -/
theorem ticks_run_machine (monitor : Monitor) (program : Program) (ops : List Operation) :
    let d := ops.foldl Operation.apply (new monitor program)
    (d.tick.running = true →
        d.tick.machine.status = .executing ∨ d.tick.machine.status = .waiting) ∧
      (∀ a, d.hasBreakpoint a = true ↔ Odd (toggles a (new monitor program) ops)) ∧
      d.scroll < 512 ∧ d.machine.pauseRequested = false ∧
      ∀ e : Debugger, e.machine.pauseRequested = false → e.running = true →
        e.machine.status.isResumable = true → (e.machine.run system).2.status ≠ .executing →
        ∃ k, (∀ j < k, (Debugger.tick^[j] e).running = true ∧
            (Debugger.tick^[j] e).isWaiting = false) ∧
          ((Debugger.tick^[k] e).running = false ∨ (Debugger.tick^[k] e).isWaiting = true) ∧
          (Debugger.tick^[k] e).machine = (e.machine.run system).2 := by
  intro d
  have hnew := orderly_new monitor program
  have hd : Orderly d := hnew.foldl ops
  refine ⟨status_tick hd, fun a => ?_, ?_, hd.pauseRequested,
    fun e hp hrunning hm hs => exists_ticks hp hm hrunning hs⟩
  · have hnone : (new monitor program).hasBreakpoint a = false := by
      unfold hasBreakpoint
      rw [breakpoints_new]
      rfl
    rw [hasBreakpoint_foldl hnew ops a, hnone]
    simp
  · exact Nat.lt_of_le_of_lt hd.scroll (by decide)

/-- A line typed ahead is read, and the breakpoint in front of the first instruction does not stop
the run that begins there. -/
theorem ticks_run_machine_twoReads :
    let start := new (ofSeed 1) twoReads
    let ops := [.toggleBreakpoint, .type "xy", .submit, .run]
    let d := ops.foldl Operation.apply start
    toggles 0 start ops = 1 ∧ d.hasBreakpoint 0 = true ∧ d.machine.pauseRequested = false ∧
      d.running = true ∧ d.machine.status.isResumable = true ∧
      (d.machine.run system).2.status = .finished ∧
      ∃ k, ((Debugger.tick^[k] d).running = false ∨ (Debugger.tick^[k] d).isWaiting = true) ∧
        (Debugger.tick^[k] d).machine = (d.machine.run system).2 := by
  let ops : List Operation := [.toggleBreakpoint, .type "xy", .submit, .run]
  have htoggles : toggles 0 (new (ofSeed 1) twoReads) ops = 1 := by decide +kernel
  have hrunning : (ops.foldl Operation.apply (new (ofSeed 1) twoReads)).running = true := by
    decide +kernel
  have hm : (ops.foldl Operation.apply (new (ofSeed 1) twoReads)).machine.status.isResumable =
      true := by decide +kernel
  have hshort : ((ops.foldl Operation.apply (new (ofSeed 1) twoReads)).machine.runLimited system
      3).2.status = .finished := by decide +kernel
  obtain ⟨-, hbreakpoints, -, hp, hticks⟩ := ticks_run_machine (ofSeed 1) twoReads ops
  have hbreakpoint := (hbreakpoints 0).mpr (htoggles ▸ odd_one)
  dsimp only
  change toggles 0 (new (ofSeed 1) twoReads) ops = 1 ∧
    (ops.foldl Operation.apply (new (ofSeed 1) twoReads)).hasBreakpoint 0 = true ∧ _
  generalize ops.foldl Operation.apply (new (ofSeed 1) twoReads) = d at *
  have hrun : (d.machine.run system).2.status = .finished := by
    unfold Machine.run
    rw [runLimited_of_le system (a := 3) (by decide) (by rw [hshort]; decide)]
    exact hshort
  obtain ⟨k, -, hstop, hmachine⟩ := hticks d hp hrunning hm (by rw [hrun]; decide)
  exact ⟨htoggles, hbreakpoint, hp, hrunning, hm, hrun, k, hstop, hmachine⟩

end Debugger
end Minicomputer
