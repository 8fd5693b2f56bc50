import Minicomputer.Proofs.Machine.Run
import Minicomputer.Proofs.Monitor.Frame

/-!
# Runs in slices

A run cut into slices is the same run: nothing is tested twice or left out at the cut. The count of
a run is the count of the machine's own cycles, in which a cycle that ends in a fault is left out.
-/

set_option autoImplicit false

namespace Minicomputer.Monitor

open Minicomputer.Machine

/-- After `count` cycles from a machine without a fault of its own: all of them are counted, or the
last one has ended in a fault. -/
def Counted (m : Machine Monitor) (count : Nat) (n : Machine Monitor) : Prop :=
  n.status ≠ .permanentError ∧ n.fault = m.fault ∧ n.cycles = m.cycles + count ∨
    n.status = .permanentError ∧ n.fault.isSome ∧ n.cycles + 1 = m.cycles + count

theorem Counted.setStatus {m n : Machine Monitor} {count : Nat} {status : Status}
    (h : Counted m count n) (hn : n.status ≠ .permanentError) (hs : status ≠ .permanentError) :
    Counted m count (n.setStatus status) := by
  rw [setStatus_eq]
  obtain ⟨-, hf, hc⟩ | ⟨he, -, -⟩ := h
  · exact .inl ⟨hs, hf, hc⟩
  · exact absurd he hn

theorem counted_tick {m n k : Machine Monitor} {count : Nat} (hn : n.status = .executing)
    (hk : n.Frame k) (hfault : n.fault = m.fault) (hcycles : n.cycles = m.cycles + count) :
    Counted m (count + 1) k.tick.stopAtBreakpoint := by
  have hs : k.status ≠ .permanentError := by
    obtain hs | hs | hs := hk.status <;> rw [hs]
    · rw [hn]
      decide
    · decide
    · decide
  have hc : k.tick.cycles = m.cycles + (count + 1) := by
    rw [← Nat.add_assoc, ← hcycles, ← hk.cycles]
    rfl
  have ht : Counted m (count + 1) k.tick := .inl ⟨hs, hk.fault.trans hfault, hc⟩
  obtain hb | ⟨-, -, hb⟩ := k.tick.stopAtBreakpoint_cases <;> rw [hb]
  · exact ht
  · exact ht.setStatus hs (by decide)

theorem counted_fail {m n k : Machine Monitor} {count : Nat} (e : Fault) (hk : n.Frame k)
    (hcycles : n.cycles = m.cycles + count) :
    Counted m (count + 1) (k.fail e).stopAtBreakpoint := by
  have hs : (k.fail e).status = .permanentError := status_setStatus _ _
  rw [stopAtBreakpoint_of_not_executing (by rw [hs]; decide), fail_eq]
  refine .inr ⟨rfl, rfl, ?_⟩
  change k.cycles + 1 = m.cycles + (count + 1)
  rw [hk.cycles, hcycles, Nat.add_assoc]

theorem counted_cycle {m n : Machine Monitor} {count : Nat} (hn : n.status = .executing)
    (h : Counted m count n) : Counted m (count + 1) (n.cycle system).2.stopAtBreakpoint := by
  obtain ⟨-, hfault, hcycles⟩ | ⟨hs, -⟩ := h
  · obtain ⟨i, k, hk, hc⟩ | ⟨e, k, hk, hc⟩ := cycle_cases n <;> rw [hc]
    · exact counted_tick hn hk hfault hcycles
    · exact counted_fail e hk hcycles
  · rw [hn] at hs
    cases hs

theorem counted_runLimited {m : Machine Monitor} (hm : m.status.isResumable = true) (limit : Nat) :
    Counted m (m.runLimited system limit).1 (m.runLimited system limit).2 := by
  have start : Counted m 0 (m.setStatus .executing) := by
    rw [setStatus_eq]
    exact .inl ⟨nofun, rfl, rfl⟩
  refine runLimited_induction system (fun {e n} hs _ h => ?_) counted_cycle limit hm start
  have hn : n.status ≠ .permanentError := by
    rw [hs]
    decide
  exact Counted.setStatus (n := { n with pauseRequested := false }) h hn (by decide)

/-- A slice that ends in the middle of the run is followed by the rest of it, and the counts add
up. A slice that ends otherwise is the whole run. -/
theorem runLimited_slices (m : Machine Monitor) (a b : Nat) :
    let slice := m.runLimited system a
    let rest := slice.2.runLimited system b
    let whole := m.runLimited system (a + b)
    (slice.2.status = .executing → rest.2 = whole.2 ∧ slice.1 + rest.1 = whole.1) ∧
      (slice.2.status ≠ .executing → whole = slice) ∧
      slice.1 ≤ a ∧ whole.1 ≤ a + b ∧
      (m.status.isResumable = true →
        slice.2.status ≠ .permanentError ∧ slice.2.fault = m.fault ∧
            slice.2.cycles = m.cycles + slice.1 ∨
          slice.2.status = .permanentError ∧ slice.2.fault.isSome ∧
            slice.2.cycles + 1 = m.cycles + slice.1) := by
  refine ⟨fun h => ?_, runLimited_add_of_not_executing system b, runLimited_fst_le system a m,
    runLimited_fst_le system (a + b) m, fun h => counted_runLimited h a⟩
  rw [runLimited_add_of_executing system b h, runLimited_fst_of_executing system h]
  exact ⟨rfl, rfl⟩

theorem cycle_pauseRequested (m : Machine Monitor) :
    (m.cycle system).2.pauseRequested = m.pauseRequested := by
  obtain ⟨i, n, hn, hc⟩ | ⟨e, n, hn, hc⟩ := cycle_cases m <;> rw [hc]
  · exact hn.pauseRequested
  · dsimp only
    rw [fail_eq]
    exact hn.pauseRequested

/-- A slice of one cycle. -/
theorem runLimited_one {m : Machine Monitor} (h : m.status = .executing)
    (hp : m.pauseRequested = false) :
    m.runLimited system 1 = (1, (m.cycle system).2.stopAtBreakpoint) := by
  have hb : (m.cycle system).2.stopAtBreakpoint.pauseRequested = false := by
    obtain hb | ⟨-, -, hb⟩ := (m.cycle system).2.stopAtBreakpoint_cases <;> rw [hb]
    · exact (cycle_pauseRequested m).trans hp
    · rw [setStatus_eq]
      exact (cycle_pauseRequested m).trans hp
  have hc : continueRun system undisturbed 0 1 m =
      continueRun system undisturbed 1 0 (m.cycle system).2.stopAtBreakpoint :=
    continueRun_succ system 0 h hp
  rw [runLimited_of_executing system 1 h, hc]
  exact continueRun_zero system hb

theorem runLimited_succ {m : Machine Monitor} {limit : Nat}
    (h : (m.runLimited system limit).2.status = .executing)
    (hp : (m.runLimited system limit).2.pauseRequested = false) :
    m.runLimited system (limit + 1) =
      (limit + 1, ((m.runLimited system limit).2.cycle system).2.stopAtBreakpoint) := by
  rw [runLimited_add_of_executing system 1 h, runLimited_one h hp]

end Minicomputer.Monitor
