import Minicomputer.Proofs.Monitor.Slices

/-!
# Runs with breakpoints

Nothing that a program does depends on the breakpoints. So a run with breakpoints goes along the run
without them and stops where that one first comes in front of a breakpoint.
-/

set_option autoImplicit false

namespace Minicomputer

namespace Machine

variable {σ : Type}

def withBreakpoints (m : Machine σ) (bs : List Word) : Machine σ := { m with breakpoints := bs }

/-- The same machine, but for the breakpoints and what listeners have heard. -/
def Alike (ρ : Audience → Audience → Prop) (bs : List Word) (m n : Machine σ) : Prop :=
  ∃ audience, ρ m.audience audience ∧ n = { m with audience, breakpoints := bs }

/-- A relation between audiences that have heard the same since. -/
def Persistent (ρ : Audience → Audience → Prop) : Prop :=
  ∀ {a b} (news), ρ a b → ρ (a.announce news) (b.announce news)

/-- A machine that stops here with these breakpoints, unless it begins here. -/
def StandsAt (m : Machine σ) (bs : List Word) : Prop := m.status = .executing ∧ m.pc ∈ bs

/-- The first number of cycles, from one on, after which a run stands at a breakpoint. -/
def FirstStand (run : Nat → Machine σ) (bs : List Word) (k : Nat) : Prop :=
  1 ≤ k ∧ (run k).StandsAt bs ∧ ∀ j, 1 ≤ j → j < k → ¬ (run j).StandsAt bs

/-- What breakpoints make of a run of at most `limit` cycles: they stop it where it first stands at
one of them, or they do nothing. -/
inductive Cut (ρ : Audience → Audience → Prop) (bs : List Word) (run : Nat → Nat × Machine σ)
    (limit : Nat) : Nat × Machine σ → Prop where
  | stopped {k : Nat} {n : Machine σ} (le : k ≤ limit)
    (first : FirstStand (fun k => (run k).2) bs k) (alike : Alike ρ bs (run k).2 n) :
    Cut ρ bs run limit (k, n.setStatus .breakpoint)
  | passed {count : Nat} {n : Machine σ}
    (none : ∀ k, 1 ≤ k → k ≤ limit → ¬ (run k).2.StandsAt bs) (count_eq : count = (run limit).1)
    (alike : Alike ρ bs (run limit).2 n) : Cut ρ bs run limit (count, n)

variable {ρ : Audience → Audience → Prop} {bs : List Word} {m n : Machine σ}

theorem FirstStand.unique {run : Nat → Machine σ} {j k : Nat} (hj : FirstStand run bs j)
    (hk : FirstStand run bs k) : j = k := by
  obtain hlt | rfl | hlt := Nat.lt_trichotomy j k
  · exact absurd hj.2.1 (hk.2.2 j hj.1 hlt)
  · rfl
  · exact absurd hk.2.1 (hj.2.2 k hk.1 hlt)

theorem not_standsAt_succ {run : Nat → Nat × Machine σ} {limit : Nat}
    (h : ∀ k, 1 ≤ k → k ≤ limit → ¬ (run k).2.StandsAt bs)
    (hs : ¬ (run (limit + 1)).2.StandsAt bs) (k : Nat) (hk : 1 ≤ k) (hkl : k ≤ limit + 1) :
    ¬ (run k).2.StandsAt bs := by
  obtain rfl | hkl := Nat.eq_or_lt_of_le hkl
  · exact hs
  · exact h k hk (Nat.le_of_lt_succ hkl)

theorem Alike.stopAtBreakpoint (h : Alike ρ bs m n) :
    m.StandsAt bs ∧ n.stopAtBreakpoint = n.setStatus .breakpoint ∨
      ¬ m.StandsAt bs ∧ n.stopAtBreakpoint = n := by
  obtain ⟨audience, ha, rfl⟩ := h
  unfold StandsAt Machine.stopAtBreakpoint
  simp only [List.contains_iff_mem]
  split
  · next h => exact .inl ⟨h, rfl⟩
  · next h => exact .inr ⟨h, rfl⟩

theorem Alike.status (h : Alike ρ bs m n) : n.status = m.status := by
  obtain ⟨_, -, rfl⟩ := h
  rfl

theorem Alike.pauseRequested (h : Alike ρ bs m n) : n.pauseRequested = m.pauseRequested := by
  obtain ⟨_, -, rfl⟩ := h
  rfl

theorem Alike.setStatus (hρ : Persistent ρ) (h : Alike ρ bs m n) (status : Status) :
    Alike ρ bs (m.setStatus status) (n.setStatus status) := by
  obtain ⟨audience, ha, rfl⟩ := h
  unfold Machine.setStatus
  dsimp only
  split
  · exact ⟨audience, ha, rfl⟩
  · exact ⟨_, hρ _ ha, rfl⟩

theorem Alike.fail (hρ : Persistent ρ) (h : Alike ρ bs m n) (e : Fault) :
    Alike ρ bs (m.fail e) (n.fail e) := by
  unfold Machine.fail
  refine Alike.setStatus hρ ?_ _
  obtain ⟨audience, ha, rfl⟩ := h
  exact ⟨audience, ha, rfl⟩

end Machine

namespace Monitor

open Minicomputer.Machine

variable {ρ : Audience → Audience → Prop} {bs : List Word} {m n : Machine Monitor}

theorem congruence_alike (hρ : Persistent ρ) (bs : List Word) :
    Congruence Eq (Alike (σ := Monitor) ρ bs) where
  registers := by rintro m _ ⟨_, _, rfl⟩; rfl
  memory := by rintro m _ ⟨_, _, rfl⟩; rfl
  debugInfo := by rintro m _ ⟨_, _, rfl⟩; rfl
  setRegister := by rintro m _ r _ w ⟨_, ha, rfl⟩; exact ⟨_, hρ _ ha, rfl⟩
  setTestFlag := by rintro m _ value ⟨_, ha, rfl⟩; exact ⟨_, hρ _ ha, rfl⟩
  setMemory := by rintro m _ memory ⟨_, ha, rfl⟩; exact ⟨_, ha, rfl⟩
  announce := by rintro m _ news ⟨_, ha, rfl⟩; exact ⟨_, hρ _ ha, rfl⟩
  print := by rintro m _ s ⟨_, ha, rfl⟩; exact ⟨_, hρ _ ha, rfl⟩
  note := by rintro m _ entry ⟨_, ha, rfl⟩; exact ⟨_, ha, rfl⟩
  system := by rintro m _ ⟨_, _, rfl⟩; exact rel_eq_iff.mpr rfl
  setSystem := by
    rintro m _ s t ⟨_, ha, rfl⟩ hs
    obtain rfl := rel_eq_iff.mp hs
    exact ⟨_, ha, rfl⟩
  generator e := congrArg _ e
  setGenerator _ e := e ▸ rfl
  setStatus _ h := h.setStatus hρ _

theorem alike_cycle (hρ : Persistent ρ) (h : Alike ρ bs m n) :
    Alike ρ bs (m.cycle system).2 (n.cycle system).2 := by
  refine (agree_cycle (congruence_alike hρ bs) ?_ (fun e h => h.fail hρ e) (.inl h)
    (fun _ _ _ => congrArg _) fun _ _ _ m' n' h hm hn => ?_).2
  · rintro m _ ⟨_, ha, rfl⟩
    exact ⟨_, ha, rfl⟩
  · obtain ⟨_, ha, rfl⟩ := h
    exact .of_eq rfl fun console => ⟨_, ha, rfl⟩

/-! ### Runs without breakpoints -/

/-- In a run that no breakpoint and no pause will end. -/
structure Free (m : Machine Monitor) : Prop where
  breakpoints : m.breakpoints = []
  pauseRequested : m.pauseRequested = false
  status : m.status.isResumable = true → m.status = .executing

theorem Free.stopAtBreakpoint (h : Free m) : m.stopAtBreakpoint = m := by
  obtain hs | ⟨-, hp, -⟩ := m.stopAtBreakpoint_cases
  · exact hs
  · rw [h.breakpoints] at hp
    cases hp

theorem Free.cycle (h : Free m) (hs : m.status = .executing) : Free (m.cycle system).2 := by
  obtain ⟨i, k, hk, hc⟩ | ⟨e, k, hk, hc⟩ := cycle_cases m <;> rw [hc]
  · refine ⟨hk.breakpoints.trans h.breakpoints, hk.pauseRequested.trans h.pauseRequested, ?_⟩
    intro hr
    change k.status = .executing
    change k.status.isResumable = true at hr
    obtain hks | hks | hks := hk.status
    · exact hks.trans hs
    · rw [hks] at hr
      cases hr
    · rw [hks] at hr
      cases hr
  · dsimp only
    rw [fail_eq]
    exact ⟨hk.breakpoints.trans h.breakpoints, hk.pauseRequested.trans h.pauseRequested, nofun⟩

theorem Free.runLimited (h : Free m) (hs : m.status = .executing) (limit : Nat) :
    Free (m.runLimited system limit).2 := by
  refine runLimited_induction (P := fun _ m => Free m) system ?_ ?_ limit
    (congrArg Status.isResumable hs) ?_
  · intro _ m _ hp h
    rw [h.pauseRequested] at hp
    cases hp
  · intro _ m hs h
    rw [(h.cycle hs).stopAtBreakpoint]
    exact h.cycle hs
  · rw [setStatus_of_eq hs]
    exact h

theorem Free.runLimited_succ {limit : Nat} (h : Free (m.runLimited system limit).2)
    (hs : (m.runLimited system limit).2.status = .executing) :
    m.runLimited system (limit + 1) =
      (limit + 1, ((m.runLimited system limit).2.cycle system).2) := by
  rw [Monitor.runLimited_succ hs h.pauseRequested, (h.cycle hs).stopAtBreakpoint]

/-! ### Runs with breakpoints -/

/-- One more cycle of a run that has met no breakpoint so far. -/
theorem cut_succ_of_executing (hρ : Persistent ρ) {limit : Nat}
    (hs : (m.runLimited system limit).2.status = .executing)
    (hm : Free (m.runLimited system limit).2)
    (hno : ∀ k, 1 ≤ k → k ≤ limit → ¬ (m.runLimited system k).2.StandsAt bs)
    (ha : Alike ρ bs (m.runLimited system limit).2 (n.runLimited system limit).2) :
    Cut ρ bs (fun k => m.runLimited system k) (limit + 1) (n.runLimited system (limit + 1)) := by
  have hr : (n.runLimited system limit).2.status = .executing := ha.status.trans hs
  have hc := alike_cycle hρ ha
  have hm₁ := hm.runLimited_succ hs
  rw [runLimited_succ hr (ha.pauseRequested.trans hm.pauseRequested)]
  have hm₂ : (m.runLimited system (limit + 1)).2 =
      ((m.runLimited system limit).2.cycle system).2 := by rw [hm₁]
  obtain ⟨hb, hstop⟩ | ⟨hb, hstop⟩ := hc.stopAtBreakpoint <;> rw [hstop] <;> rw [← hm₂] at hb hc
  · exact .stopped (Nat.le_refl _)
      ⟨Nat.le_add_left 1 limit, hb, fun j hj hjk => hno j hj (Nat.le_of_lt_succ hjk)⟩ hc
  · exact .passed (not_standsAt_succ hno hb) (by rw [hm₁]) hc

/-- A run goes along the run without breakpoints, up to where that one first stands at one. -/
theorem cut_runLimited (hρ : Persistent ρ) (hm : Free m) (hs : m.status = .executing)
    (h : Alike ρ bs m n) (limit : Nat) :
    Cut ρ bs (fun k => m.runLimited system k) limit (n.runLimited system limit) := by
  induction limit with
  | zero =>
    have hn : n.status = .executing := h.status.trans hs
    have hm₀ := runLimited_zero system hs hm.pauseRequested
    rw [runLimited_zero system hn (h.pauseRequested.trans hm.pauseRequested)]
    exact .passed (fun k hk hk₀ => by omega) (by rw [hm₀]) (by rw [hm₀]; exact h)
  | succ limit ih =>
    rcases hr : n.runLimited system limit with ⟨count, n'⟩
    rw [hr] at ih
    cases ih with
    | @stopped _ n' le first alike =>
      have hstop : (n.runLimited system limit).2.status ≠ .executing := by
        rw [hr, status_setStatus]
        decide
      rw [runLimited_add_of_not_executing system 1 hstop, hr]
      exact .stopped (Nat.le_succ_of_le le) first alike
    | passed none count_eq alike =>
      by_cases hs' : (m.runLimited system limit).2.status = .executing
      · exact cut_succ_of_executing hρ hs' (hm.runLimited hs limit) none (by rw [hr]; exact alike)
      · have hstop : (n.runLimited system limit).2.status ≠ .executing := by
          rw [hr]
          exact alike.status ▸ hs'
        have hm₁ := runLimited_add_of_not_executing system 1 hs'
        have hno : ¬ (m.runLimited system (limit + 1)).2.StandsAt bs := by
          rw [hm₁]
          exact fun e => hs' e.1
        rw [runLimited_add_of_not_executing system 1 hstop, hr]
        exact .passed (not_standsAt_succ none hno) (by rw [hm₁]; exact count_eq)
          (by rw [hm₁]; exact alike)

theorem alike_withBreakpoints (m : Machine Monitor) (bs : List Word) :
    Alike Eq bs (m.withBreakpoints []) (m.withBreakpoints bs) :=
  ⟨m.audience, rfl, rfl⟩

theorem alike_eq_iff : Alike Eq bs m n ↔ n = m.withBreakpoints bs := by
  constructor
  · rintro ⟨_, rfl, rfl⟩
    rfl
  · rintro rfl
    exact ⟨m.audience, rfl, rfl⟩

theorem free_start (hp : m.pauseRequested = false) :
    Free ((m.withBreakpoints []).setStatus .executing) := by
  rw [setStatus_eq]
  exact ⟨rfl, hp, fun _ => rfl⟩

section

variable (hm : m.status.isResumable = true) (hp : m.pauseRequested = false)

include hm hp

theorem free_runLimited (limit : Nat) :
    Free ((m.withBreakpoints []).runLimited system limit).2 := by
  rw [← runLimited_setStatus_executing (m := m.withBreakpoints []) system limit hm]
  exact (free_start hp).runLimited (status_setStatus _ _) limit

theorem cut_withBreakpoints (bs : List Word) (limit : Nat) :
    Cut Eq bs (fun k => (m.withBreakpoints []).runLimited system k) limit
      ((m.withBreakpoints bs).runLimited system limit) := by
  have persistent : Persistent Eq := fun news h => h ▸ rfl
  have h := cut_runLimited persistent (free_start hp) (status_setStatus _ _)
    ((alike_withBreakpoints m bs).setStatus persistent .executing) limit
  rw [runLimited_setStatus_executing (m := m.withBreakpoints bs) system limit hm] at h
  simp only [runLimited_setStatus_executing (m := m.withBreakpoints []) system _ hm] at h
  exact h

theorem runLimited_of_firstStand {limit k : Nat} (hk : k ≤ limit)
    (h : FirstStand (fun k => ((m.withBreakpoints []).runLimited system k).2) bs k) :
    (m.withBreakpoints bs).runLimited system limit =
      (k, ((((m.withBreakpoints []).runLimited system k).2).withBreakpoints bs).setStatus
        .breakpoint) := by
  have hc := cut_withBreakpoints hm hp bs limit
  rcases hr : (m.withBreakpoints bs).runLimited system limit with ⟨count, n⟩
  rw [hr] at hc
  cases hc with
  | stopped _ first alike =>
    obtain rfl := first.unique h
    rw [alike_eq_iff.mp alike]
  | passed none => exact absurd h.2.1 (none k h.1 hk)

theorem runLimited_of_not_standsAt {limit : Nat}
    (h : ∀ k, 1 ≤ k → k ≤ limit →
      ¬ ((m.withBreakpoints []).runLimited system k).2.StandsAt bs) :
    (m.withBreakpoints bs).runLimited system limit =
      (((m.withBreakpoints []).runLimited system limit).1,
        ((m.withBreakpoints []).runLimited system limit).2.withBreakpoints bs) := by
  have hc := cut_withBreakpoints hm hp bs limit
  rcases hr : (m.withBreakpoints bs).runLimited system limit with ⟨count, n⟩
  rw [hr] at hc
  cases hc with
  | stopped le first => exact absurd first.2.1 (h count first.1 le)
  | passed _ count_eq alike => rw [count_eq, alike_eq_iff.mp alike]

theorem status_eq_breakpoint_iff {limit : Nat} :
    ((m.withBreakpoints bs).runLimited system limit).2.status = .breakpoint ↔
      ∃ k, 1 ≤ k ∧ k ≤ limit ∧ ((m.withBreakpoints []).runLimited system k).2.StandsAt bs := by
  have hc := cut_withBreakpoints hm hp bs limit
  rcases hr : (m.withBreakpoints bs).runLimited system limit with ⟨count, n⟩
  rw [hr] at hc
  cases hc with
  | stopped le first =>
    exact iff_of_true (status_setStatus _ _) ⟨count, first.1, le, first.2.1⟩
  | passed none _ alike =>
    refine iff_of_false (fun h => ?_) fun ⟨k, hk, hkl, hs⟩ => none k hk hkl hs
    have hs : ((m.withBreakpoints []).runLimited system limit).2.status = .breakpoint :=
      alike.status.symm.trans h
    have he := (free_runLimited hm hp limit).status (congrArg Status.isResumable hs)
    rw [hs] at he
    cases he

/-- Only the first instruction of a run may stand at a breakpoint. -/
theorem not_mem_of_lt {limit k : Nat} (hk : 1 ≤ k)
    (hkl : k < ((m.withBreakpoints bs).runLimited system limit).1) :
    ((m.withBreakpoints bs).runLimited system k).2.status = .executing ∧
      ((m.withBreakpoints bs).runLimited system k).2.pc ∉ bs := by
  have hle := runLimited_fst_le system limit (m.withBreakpoints bs)
  have hs : ((m.withBreakpoints bs).runLimited system k).2.status = .executing := by
    -- A run that had stopped after fewer cycles would have stopped there with the larger limit too.
    by_contra hs
    have hcount := runLimited_fst_le system k (m.withBreakpoints bs)
    rw [runLimited_of_le system (by omega) hs] at hkl
    omega
  refine ⟨hs, fun hpc => ?_⟩
  have hno : ¬ ∃ j, 1 ≤ j ∧ j ≤ k ∧
      ((m.withBreakpoints []).runLimited system j).2.StandsAt bs := by
    rw [← status_eq_breakpoint_iff hm hp, hs]
    decide
  have hr : (m.withBreakpoints bs).runLimited system k = _ :=
    runLimited_of_not_standsAt hm hp fun j hj hjk e => hno ⟨j, hj, hjk, e⟩
  rw [hr] at hs hpc
  exact hno ⟨k, hk, Nat.le_refl k, hs, hpc⟩

end

end Monitor
end Minicomputer
