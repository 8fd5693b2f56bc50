import Minicomputer.Proofs.Monitor.Agreement

/-!
# What a cycle leaves alone

Under the monitor a cycle leaves the machine around the program alone: breakpoints, speed, debug
strings, listeners and a request to pause. It writes the flags at their lowest bit only, ends in the
status that it began in or in one of two others, and counts itself, unless it ends in a fault.
-/

set_option autoImplicit false

namespace Minicomputer

theorem RegisterFile.flags_setTestFlag (f : RegisterFile) (value : Bool) :
    ((f.setTestFlag value).get .flags).toNat / 2 = (f.get .flags).toNat / 2 := by
  rw [get_flags_setTestFlag]
  cases value with
  | true =>
    rw [if_pos rfl, UInt16.toNat_or, Nat.or_div_two]
    simp
  | false =>
    have h := UInt16.toNat_lt (f.get .flags)
    have hm : (~~~1 : Word).toNat / 2 = 2 ^ 15 - 1 := by decide
    rw [if_neg (by decide), UInt16.toNat_and, Nat.and_div_two, hm, Nat.and_two_pow_sub_one_eq_mod]
    omega

namespace Machine

variable {σ : Type} {l m n : Machine σ}

/-- What an instruction leaves alone, system calls of the monitor included. -/
structure Frame (m n : Machine σ) : Prop where
  cycles : n.cycles = m.cycles
  speed : n.speed = m.speed
  listeners : n.audience.listeners = m.audience.listeners
  pauseRequested : n.pauseRequested = m.pauseRequested
  breakpoints : n.breakpoints = m.breakpoints
  debugInfo : n.debugInfo = m.debugInfo
  fault : n.fault = m.fault
  status : n.status = m.status ∨ n.status = .finished ∨ n.status = .waiting
  flags : (n.registers.get .flags).toNat / 2 = (m.registers.get .flags).toNat / 2

theorem Frame.refl (m : Machine σ) : m.Frame m :=
  ⟨rfl, rfl, rfl, rfl, rfl, rfl, rfl, .inl rfl, rfl⟩

theorem stable_frame (m : Machine σ) : Action.Stable m.Frame where
  setRegister {n r} hr w h := by
    have hf : (n.setRegister r w).registers.get .flags = n.registers.get .flags :=
      RegisterFile.get_set_of_ne _ _ hr
    exact ⟨h.1, h.2, h.3, h.4, h.5, h.6, h.7, h.8, hf ▸ h.flags⟩
  setTestFlag value h :=
    ⟨h.1, h.2, h.3, h.4, h.5, h.6, h.7, h.8, (RegisterFile.flags_setTestFlag _ _).trans h.flags⟩
  setMemory _ h := ⟨h.1, h.2, h.3, h.4, h.5, h.6, h.7, h.8, h.9⟩
  announce _ h := ⟨h.1, h.2, h.3, h.4, h.5, h.6, h.7, h.8, h.9⟩
  print _ h := ⟨h.1, h.2, h.3, h.4, h.5, h.6, h.7, h.8, h.9⟩
  note _ h := ⟨h.1, h.2, h.3, h.4, h.5, h.6, h.7, h.8, h.9⟩

theorem Frame.setStatus (h : m.Frame n) {status : Status}
    (hs : status = .finished ∨ status = .waiting) : m.Frame (n.setStatus status) := by
  have hstatus := n.status_setStatus status
  unfold Machine.setStatus at hstatus ⊢
  split
  · exact h
  · exact ⟨h.1, h.2, h.3, h.4, h.5, h.6, h.7, .inr hs, h.9⟩

end Machine

namespace Monitor

open Minicomputer.Action

variable {m n : Machine Monitor}

/-- A machine with the frame of another is related to itself. -/
def Framed (m n n' : Machine Monitor) : Prop := n = n' ∧ m.Frame n

theorem congruence_framed (m : Machine Monitor) : Congruence Eq (Framed m) where
  toCongruence := (m.stable_frame).congruence
  system h := rel_eq_iff.mpr (congrArg _ h.1)
  setSystem := by
    rintro n _ s t ⟨rfl, h⟩ hs
    obtain rfl := rel_eq_iff.mp hs
    exact ⟨rfl, h.1, h.2, h.3, h.4, h.5, h.6, h.7, h.8, h.9⟩
  generator e := congrArg _ e
  setGenerator _ e := e ▸ rfl
  setStatus := by
    rintro n _ status hs ⟨rfl, h⟩
    exact ⟨rfl, h.setStatus hs⟩

theorem frame_systemCall (c : Byte) (h : m.Frame n) :
    m.Frame ((systemCall system c).run n).2 := by
  have hf : Framed m n n := ⟨rfl, h⟩
  refine (agree_systemCall (congruence_framed m) hf (fun _ _ _ => congrArg _) fun _ _ _ => ?_).2.2
  exact .of_eq rfl fun console => ⟨rfl, h.1, h.2, h.3, h.4, h.5, h.6, h.7, h.8, h.9⟩

/-- An instruction is executed, to be counted, or ends in a fault. -/
theorem fetchAndExecute_cases (m : Machine Monitor) :
    (∃ i n, m.Frame n ∧ (fetchAndExecute system).run m = (.ok i, n.tick)) ∨
      ∃ e n, m.Frame n ∧ (fetchAndExecute system).run m = (.error e, n) :=
  Action.fetchAndExecute_cases system m.stable_frame id m.stable_frame.announce frame_systemCall
    (.refl m)

/-- What a cycle does: it executes an instruction and is counted, or it ends in a fault. -/
theorem cycle_cases (m : Machine Monitor) :
    (∃ i n, m.Frame n ∧ m.cycle system = (.ok i, n.tick)) ∨
      ∃ e n, m.Frame n ∧ m.cycle system = (.error e, n.fail e) :=
  Action.cycle_cases system m.stable_frame id m.stable_frame.announce frame_systemCall (.refl m)

end Monitor
end Minicomputer
