import Minicomputer.Machine.Execute

/-!
# Runs

A run executes cycle after cycle until the machine leaves the status of executing, someone wants a
pause, or a limit is reached. Others may ask for a pause at any time; a schedule says in front of
which cycles they do.
-/

set_option autoImplicit false

namespace Minicomputer.Machine

variable {σ : Type}

/-- In front of which cycles of a run a pause is asked for, counted from zero. -/
abbrev Schedule := Nat → Bool

def undisturbed : Schedule := fun _ => false

/-- Takes in what the schedule has in front of a cycle. -/
def hear (signals : Schedule) (cycle : Nat) (m : Machine σ) : Machine σ :=
  if signals cycle then m.requestPause else m

/-- Stops in front of an instruction at a breakpoint. -/
def stopAtBreakpoint (m : Machine σ) : Machine σ :=
  if m.status = .executing ∧ m.breakpoints.contains m.pc then m.setStatus .breakpoint else m

/-- Goes on with a run of which `executed` cycles are over, for at most `limit` more. A pause is
seen before the limit is. Gives the number of all cycles. -/
def continueRun (S : System σ) (signals : Schedule) (executed : Nat) :
    (limit : Nat) → Machine σ → Nat × Machine σ
  | limit, m =>
    if m.status ≠ .executing then (executed, m)
    else
      let m := m.hear signals executed
      if m.pauseRequested then
        (executed, { m with pauseRequested := false }.setStatus .ready)
      else
        match limit with
        | 0 => (executed, m)
        | n + 1 => continueRun S signals (executed + 1) n (m.cycle S).2.stopAtBreakpoint

/-- A run of at most `limit` cycles under a schedule of requests to pause. -/
def runScheduled (S : System σ) (signals : Schedule) (limit : Nat) (m : Machine σ) :
    Nat × Machine σ :=
  if m.status.isResumable then continueRun S signals 0 limit (m.setStatus .executing)
  else (0, m)

def runLimited (S : System σ) (limit : Nat) (m : Machine σ) : Nat × Machine σ :=
  m.runScheduled S undisturbed limit

/-- More cycles than any run can have. -/
def unlimited : Nat := UInt64.size

def run (S : System σ) (m : Machine σ) : Nat × Machine σ := m.runLimited S unlimited

theorem continueRun_of_not_executing (S : System σ) (signals : Schedule) (executed limit : Nat)
    {m : Machine σ} (h : m.status ≠ .executing) :
    continueRun S signals executed limit m = (executed, m) := by
  unfold continueRun
  rw [if_pos h]

theorem continueRun_fst_le (S : System σ) (signals : Schedule) (executed limit : Nat)
    (m : Machine σ) : (continueRun S signals executed limit m).1 ≤ executed + limit := by
  induction limit generalizing executed m with
  | zero =>
    unfold continueRun
    split
    · exact Nat.le_refl _
    · dsimp only
      split <;> exact Nat.le_refl _
  | succ n ih =>
    unfold continueRun
    split
    · exact Nat.le_add_right _ _
    · dsimp only
      split
      · exact Nat.le_add_right _ _
      · have h := ih (executed + 1)
          ((m.hear signals executed).cycle S).2.stopAtBreakpoint
        omega

end Minicomputer.Machine
