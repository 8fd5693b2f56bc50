import Minicomputer.Machine.Run

/-!
# Parts of a run

A run goes on, cycle by cycle, from the machine that the cycles so far have left. So a limit can be
cut in two: the second part goes on where the first one left off, and a run that has stopped in the
first part has stopped.
-/

set_option autoImplicit false

namespace Minicomputer.Machine

variable {σ : Type} (S : System σ) {signals : Schedule} {executed limit : Nat} {m : Machine σ}

theorem setStatus_of_eq {status : Status} (h : m.status = status) : m.setStatus status = m := by
  unfold setStatus
  rw [if_pos h]

/-- A status is all that is set, besides what the listeners hear of it. -/
theorem setStatus_eq (m : Machine σ) (status : Status) :
    m.setStatus status = { m with status, audience := (m.setStatus status).audience } := by
  unfold setStatus
  split
  · next h => rw [← h]
  · rfl

theorem stopAtBreakpoint_cases (m : Machine σ) :
    m.stopAtBreakpoint = m ∨
      m.status = .executing ∧ m.pc ∈ m.breakpoints ∧
        m.stopAtBreakpoint = m.setStatus .breakpoint := by
  unfold stopAtBreakpoint
  split
  · next h => exact .inr ⟨h.1, List.mem_of_elem_eq_true h.2, rfl⟩
  · exact .inl rfl

theorem stopAtBreakpoint_of_not_executing (h : m.status ≠ .executing) : m.stopAtBreakpoint = m := by
  unfold stopAtBreakpoint
  rw [if_neg fun hs => h hs.1]

theorem fail_eq (e : Fault) (m : Machine σ) :
    m.fail e = { m with
      registers := m.registers.setErrorFlag true
      fault := some e
      status := .permanentError
      audience := (m.fail e).audience } := by
  unfold fail
  rw [setStatus_eq]

theorem hear_of_not_pauseRequested (h : (m.hear signals executed).pauseRequested = false) :
    m.hear signals executed = m := by
  unfold hear at h ⊢
  split
  · next hs =>
    rw [if_pos hs] at h
    cases h
  · rfl

/-! ### One turn of the loop -/

/-- A turn finds the machine stopped, or asked to pause, or executes a cycle. -/
theorem turn_cases (signals : Schedule) (executed : Nat) (m : Machine σ) :
    m.status ≠ .executing ∨
      m.status = .executing ∧ (m.hear signals executed).pauseRequested = true ∨
        m.status = .executing ∧ (m.hear signals executed).pauseRequested = false := by
  by_cases hs : m.status = .executing
  · cases hp : (m.hear signals executed).pauseRequested with
    | true => exact .inr (.inl ⟨hs, rfl⟩)
    | false => exact .inr (.inr ⟨hs, rfl⟩)
  · exact .inl hs

theorem continueRun_of_pause (limit : Nat) (h : m.status = .executing)
    (hp : (m.hear signals executed).pauseRequested = true) :
    continueRun S signals executed limit m =
      (executed, { m.hear signals executed with pauseRequested := false }.setStatus .ready) := by
  unfold continueRun
  rw [if_neg (not_not_intro h)]
  dsimp only
  rw [if_pos hp]

theorem continueRun_zero (hp : (m.hear signals executed).pauseRequested = false) :
    continueRun S signals executed 0 m = (executed, m) := by
  unfold continueRun
  split
  · rfl
  · dsimp only
    rw [hp, hear_of_not_pauseRequested hp]
    rfl

theorem continueRun_succ (limit : Nat) (h : m.status = .executing)
    (hp : (m.hear signals executed).pauseRequested = false) :
    continueRun S signals executed (limit + 1) m =
      continueRun S signals (executed + 1) limit (m.cycle S).2.stopAtBreakpoint := by
  rw [continueRun, if_neg (not_not_intro h)]
  dsimp only
  rw [hp, hear_of_not_pauseRequested hp]
  rfl

/-! ### Whole runs -/

/-- What a request to pause, a pause and a cycle keep, a run keeps. -/
theorem continueRun_induction {P : Nat → Machine σ → Prop} (signals : Schedule)
    (request : ∀ {e m}, signals e = true → P e m → P e m.requestPause)
    (pause : ∀ {e m}, m.status = .executing → m.pauseRequested = true → P e m →
      P e ({ m with pauseRequested := false }.setStatus .ready))
    (cycle : ∀ {e m}, m.status = .executing → P e m → P (e + 1) (m.cycle S).2.stopAtBreakpoint)
    (limit : Nat) (h : P executed m) :
    P (continueRun S signals executed limit m).1 (continueRun S signals executed limit m).2 := by
  have paused {e m} (hs : m.status = .executing) (hp : (m.hear signals e).pauseRequested = true)
      (h : P e m) : P e ({ m.hear signals e with pauseRequested := false }.setStatus .ready) := by
    unfold hear at hp ⊢
    split
    · next he => exact pause hs rfl (request he h)
    · next he =>
      rw [if_neg he] at hp
      exact pause hs hp h
  induction limit generalizing executed m with
  | zero =>
    obtain hs | ⟨hs, hp⟩ | ⟨-, hp⟩ := turn_cases signals executed m
    · rw [continueRun_of_not_executing S signals executed 0 hs]
      exact h
    · rw [continueRun_of_pause S 0 hs hp]
      exact paused hs hp h
    · rw [continueRun_zero S hp]
      exact h
  | succ n ih =>
    obtain hs | ⟨hs, hp⟩ | ⟨hs, hp⟩ := turn_cases signals executed m
    · rw [continueRun_of_not_executing S signals executed (n + 1) hs]
      exact h
    · rw [continueRun_of_pause S (n + 1) hs hp]
      exact paused hs hp h
    · rw [continueRun_succ S n hs hp]
      exact ih (cycle hs h)

theorem le_continueRun_fst (signals : Schedule) (executed limit : Nat) (m : Machine σ) :
    executed ≤ (continueRun S signals executed limit m).1 :=
  continueRun_induction (P := fun e _ => executed ≤ e) S signals (fun _ h => h) (fun _ _ h => h)
    (fun _ h => Nat.le_succ_of_le h) limit (Nat.le_refl executed)

/-- The cycles that are over matter for what the schedule has next, and for the count. -/
theorem continueRun_shift (signals : Schedule) (k executed limit : Nat) (m : Machine σ) :
    continueRun S signals (k + executed) limit m =
      (k + (continueRun S (fun i => signals (k + i)) executed limit m).1,
        (continueRun S (fun i => signals (k + i)) executed limit m).2) := by
  have hear_eq : m.hear signals (k + executed) = m.hear (fun i => signals (k + i)) executed := rfl
  induction limit generalizing executed m with
  | zero =>
    obtain hs | ⟨hs, hp⟩ | ⟨-, hp⟩ := turn_cases signals (k + executed) m
    · rw [continueRun_of_not_executing S _ _ 0 hs, continueRun_of_not_executing S _ _ 0 hs]
    · rw [continueRun_of_pause S 0 hs hp, continueRun_of_pause S 0 hs (hear_eq ▸ hp), hear_eq]
    · rw [continueRun_zero S hp, continueRun_zero S (hear_eq ▸ hp)]
  | succ n ih =>
    obtain hs | ⟨hs, hp⟩ | ⟨hs, hp⟩ := turn_cases signals (k + executed) m
    · rw [continueRun_of_not_executing S _ _ _ hs, continueRun_of_not_executing S _ _ _ hs]
    · rw [continueRun_of_pause S _ hs hp, continueRun_of_pause S _ hs (hear_eq ▸ hp), hear_eq]
    · rw [continueRun_succ S n hs hp, continueRun_succ S n hs (hear_eq ▸ hp)]
      exact ih (executed + 1) _ rfl

/-- A run that is still going on has used up its limit. -/
theorem continueRun_fst_of_executing
    (h : (continueRun S signals executed limit m).2.status = .executing) :
    (continueRun S signals executed limit m).1 = executed + limit := by
  induction limit generalizing executed m with
  | zero => exact Nat.le_antisymm (continueRun_fst_le S _ _ 0 m) (le_continueRun_fst S _ _ 0 m)
  | succ n ih =>
    obtain hs | ⟨hs, hp⟩ | ⟨hs, hp⟩ := turn_cases signals executed m
    · rw [continueRun_of_not_executing S _ _ _ hs] at h
      exact absurd h hs
    · rw [continueRun_of_pause S _ hs hp, status_setStatus] at h
      cases h
    · rw [continueRun_succ S n hs hp] at h ⊢
      rw [ih h]
      omega

/-- A limit in two parts. -/
theorem continueRun_add (signals : Schedule) (executed a b : Nat) (m : Machine σ) :
    continueRun S signals executed (a + b) m =
      if (continueRun S signals executed a m).2.status = .executing then
        continueRun S signals (executed + a) b (continueRun S signals executed a m).2
      else continueRun S signals executed a m := by
  induction a generalizing executed m with
  | zero =>
    obtain hs | ⟨hs, hp⟩ | ⟨hs, hp⟩ := turn_cases signals executed m
    · rw [continueRun_of_not_executing S _ _ _ hs, continueRun_of_not_executing S _ _ _ hs,
        if_neg hs]
    · rw [continueRun_of_pause S _ hs hp, continueRun_of_pause S _ hs hp, status_setStatus,
        if_neg (by decide)]
    -- The request that the first part has looked for is looked for again, and is not there.
    · rw [continueRun_zero S hp, if_pos hs, Nat.zero_add]
      rfl
  | succ a ih =>
    have hab : a + 1 + b = a + b + 1 := by omega
    have hea : executed + (a + 1) = executed + 1 + a := by omega
    obtain hs | ⟨hs, hp⟩ | ⟨hs, hp⟩ := turn_cases signals executed m
    · rw [continueRun_of_not_executing S _ _ _ hs, continueRun_of_not_executing S _ _ _ hs,
        if_neg hs]
    · rw [continueRun_of_pause S _ hs hp, continueRun_of_pause S _ hs hp, status_setStatus,
        if_neg (by decide)]
    · rw [hab, hea, continueRun_succ S _ hs hp, continueRun_succ S _ hs hp, ih]

/-- As many cycles as a run has had are limit enough for it. -/
theorem continueRun_count (signals : Schedule) (executed limit : Nat) (m : Machine σ) :
    continueRun S signals executed ((continueRun S signals executed limit m).1 - executed) m =
      continueRun S signals executed limit m := by
  induction limit generalizing executed m with
  | zero =>
    have h : (continueRun S signals executed 0 m).1 ≤ executed := continueRun_fst_le S _ _ 0 m
    rw [Nat.sub_eq_zero_of_le h]
  | succ n ih =>
    obtain hs | ⟨hs, hp⟩ | ⟨hs, hp⟩ := turn_cases signals executed m
    · rw [continueRun_of_not_executing S _ _ _ hs, continueRun_of_not_executing S _ _ _ hs]
    · rw [continueRun_of_pause S _ hs hp, continueRun_of_pause S _ hs hp]
    · rw [continueRun_succ S n hs hp]
      have hle := le_continueRun_fst S signals (executed + 1) n (m.cycle S).2.stopAtBreakpoint
      have hsub (k : Nat) (h : executed + 1 ≤ k) : k - executed = k - (executed + 1) + 1 := by omega
      rw [hsub _ hle, continueRun_succ S _ hs hp, ih]

/-! ### Runs from outside -/

theorem step_of_isResumable (h : m.status.isResumable = true) :
    m.step S = (m.setStatus .executing).cycle S := by
  unfold step
  rw [if_pos h]

theorem step_of_not_isResumable (h : m.status.isResumable = false) :
    m.step S = (.error (.notRunnable m.status), m) := by
  unfold step
  rw [h]
  rfl

theorem runScheduled_of_not_isResumable (signals : Schedule) (limit : Nat)
    (h : m.status.isResumable = false) : m.runScheduled S signals limit = (0, m) := by
  unfold runScheduled
  rw [h]
  rfl

theorem runLimited_of_not_isResumable (limit : Nat) (h : m.status.isResumable = false) :
    m.runLimited S limit = (0, m) :=
  runScheduled_of_not_isResumable S undisturbed limit h

theorem runLimited_of_isResumable (limit : Nat) (h : m.status.isResumable = true) :
    m.runLimited S limit = continueRun S undisturbed 0 limit (m.setStatus .executing) := by
  unfold runLimited runScheduled
  rw [if_pos h]

/-- What a pause and a cycle keep, a run that nobody disturbs keeps. -/
theorem runLimited_induction {P : Nat → Machine σ → Prop}
    (pause : ∀ {e m}, m.status = .executing → m.pauseRequested = true → P e m →
      P e ({ m with pauseRequested := false }.setStatus .ready))
    (cycle : ∀ {e m}, m.status = .executing → P e m → P (e + 1) (m.cycle S).2.stopAtBreakpoint)
    (limit : Nat) (hm : m.status.isResumable = true) (h : P 0 (m.setStatus .executing)) :
    P (m.runLimited S limit).1 (m.runLimited S limit).2 := by
  rw [runLimited_of_isResumable S limit hm]
  exact continueRun_induction (P := P) S undisturbed nofun pause cycle limit h

/-- A run begins by executing. -/
theorem runLimited_setStatus_executing (limit : Nat) (h : m.status.isResumable = true) :
    (m.setStatus .executing).runLimited S limit = m.runLimited S limit := by
  have hs := m.status_setStatus .executing
  rw [runLimited_of_isResumable S limit (congrArg Status.isResumable hs), setStatus_of_eq hs,
    runLimited_of_isResumable S limit h]

theorem runLimited_of_executing (limit : Nat) (h : m.status = .executing) :
    m.runLimited S limit = continueRun S undisturbed 0 limit m := by
  rw [runLimited_of_isResumable S limit (congrArg Status.isResumable h), setStatus_of_eq h]

theorem runLimited_zero (h : m.status = .executing) (hp : m.pauseRequested = false) :
    m.runLimited S 0 = (0, m) :=
  (runLimited_of_executing S 0 h).trans (continueRun_zero S hp)

theorem runLimited_fst_le (limit : Nat) (m : Machine σ) : (m.runLimited S limit).1 ≤ limit := by
  cases h : m.status.isResumable with
  | true =>
    have hle := continueRun_fst_le S undisturbed 0 limit (m.setStatus .executing)
    rw [runLimited_of_isResumable S limit h]
    omega
  | false =>
    rw [runLimited_of_not_isResumable S limit h]
    exact Nat.zero_le limit

/-- A run that may go on makes progress. -/
theorem runLimited_fst_pos {limit : Nat} (hl : 0 < limit) (h : m.status.isResumable = true)
    (hp : m.pauseRequested = false) : 0 < (m.runLimited S limit).1 := by
  have hs := m.status_setStatus .executing
  have hq : ((m.setStatus .executing).hear undisturbed 0).pauseRequested = false := by
    rw [setStatus_eq]
    exact hp
  obtain ⟨limit, rfl⟩ := Nat.exists_eq_add_one_of_ne_zero (Nat.ne_of_gt hl)
  rw [runLimited_of_isResumable S _ h, continueRun_succ S limit hs hq]
  exact le_continueRun_fst S undisturbed 1 limit _

theorem isResumable_of_executing {a : Nat} (h : (m.runLimited S a).2.status = .executing) :
    m.status.isResumable = true := by
  cases hr : m.status.isResumable with
  | true => rfl
  | false =>
    rw [runLimited_of_not_isResumable S _ hr] at h
    rw [h] at hr
    cases hr

/-- A run that is still going on is resumed with what is left of its limit. -/
theorem runLimited_add_of_executing {a : Nat} (b : Nat)
    (h : (m.runLimited S a).2.status = .executing) :
    m.runLimited S (a + b) =
      (a + ((m.runLimited S a).2.runLimited S b).1, ((m.runLimited S a).2.runLimited S b).2) := by
  have hr := isResumable_of_executing S h
  rw [runLimited_of_isResumable S _ hr] at h ⊢
  rw [runLimited_of_isResumable S _ hr,
    runLimited_of_executing S _ h, continueRun_add, if_pos h, Nat.zero_add]
  exact continueRun_shift S undisturbed a 0 b _

theorem runLimited_add_of_not_executing {a : Nat} (b : Nat)
    (h : (m.runLimited S a).2.status ≠ .executing) :
    m.runLimited S (a + b) = m.runLimited S a := by
  cases hr : m.status.isResumable with
  | true =>
    rw [runLimited_of_isResumable S _ hr] at h ⊢
    rw [runLimited_of_isResumable S _ hr, continueRun_add, if_neg h]
  | false =>
    rw [runLimited_of_not_isResumable S _ hr, runLimited_of_not_isResumable S _ hr]

/-- A run that has stopped has stopped with every larger limit. -/
theorem runLimited_of_le {a b : Nat} (hab : a ≤ b) (h : (m.runLimited S a).2.status ≠ .executing) :
    m.runLimited S b = m.runLimited S a := by
  obtain ⟨k, rfl⟩ := Nat.exists_eq_add_of_le hab
  exact runLimited_add_of_not_executing S k h

theorem runLimited_fst_of_executing {a : Nat} (h : (m.runLimited S a).2.status = .executing) :
    (m.runLimited S a).1 = a := by
  have hr := isResumable_of_executing S h
  rw [runLimited_of_isResumable S _ hr] at h ⊢
  rw [continueRun_fst_of_executing S h, Nat.zero_add]

theorem runLimited_count (limit : Nat) (m : Machine σ) :
    m.runLimited S (m.runLimited S limit).1 = m.runLimited S limit := by
  cases hr : m.status.isResumable with
  | true =>
    rw [runLimited_of_isResumable S _ hr, runLimited_of_isResumable S _ hr]
    exact continueRun_count S undisturbed 0 limit _
  | false =>
    rw [runLimited_of_not_isResumable S _ hr, runLimited_of_not_isResumable S _ hr]

/-! ### What is kept

What a change of the status keeps is kept by a pause, and if cycles keep it too, by steps and runs. -/

section

variable {P : Machine σ → Prop} (status : ∀ {n : Machine σ} (s), P n → P (n.setStatus s))

include status

theorem kept_pause (h : P m) : P m.pause := by
  unfold pause
  split
  · exact status _ h
  · exact status _ h
  · exact status _ h
  · exact h

theorem kept_stopAtBreakpoint (h : P m) : P m.stopAtBreakpoint := by
  obtain hb | ⟨-, -, hb⟩ := m.stopAtBreakpoint_cases <;> rw [hb]
  · exact h
  · exact status _ h

variable (cycle : ∀ {n : Machine σ}, P n → P (n.cycle S).2)

include cycle

theorem kept_step (h : P m) : P (m.step S).2 := by
  unfold step
  split
  · exact cycle (status _ h)
  · exact h

theorem kept_runScheduled
    (flag : ∀ {n : Machine σ} (value), P n → P { n with pauseRequested := value })
    (signals : Schedule) (limit : Nat) (h : P m) : P (m.runScheduled S signals limit).2 := by
  unfold runScheduled
  split
  · exact continueRun_induction (P := fun _ n => P n) S signals (fun _ h => flag true h)
      (fun _ _ h => status _ (flag false h))
      (fun _ h => kept_stopAtBreakpoint status (cycle h)) limit (status _ h)
  · exact h

end

end Minicomputer.Machine
