import Minicomputer.Proofs.Monitor.Slices

/-!
# The life of a machine

Status, fault, error flag and operating system are written in different places and fit together
after each operation: a machine has a fault where its status and its flag say so, and the system is
back in place after each call. A machine that has finished, failed or waits is left alone by what
executes, and gets out of it by few operations.
-/

set_option autoImplicit false

namespace Minicomputer

namespace RegisterFile

theorem errorFlag_iff (f : RegisterFile) :
    f.errorFlag = true ↔ (f.get .flags).toNat / 2 % 2 = 1 := by
  have hbit : (f.get .flags).toNat.testBit 1 = decide ((f.get .flags).toNat / 2 % 2 = 1) :=
    Nat.testBit_eq_decide_div_mod_eq
  unfold errorFlag
  rw [bne_iff_ne, ne_eq, ← UInt16.toNat_inj, UInt16.toNat_and]
  change ¬ ((f.get .flags).toNat &&& 2 ^ 1) = 0 ↔ _
  rw [Nat.and_two_pow, hbit]
  by_cases h : (f.get .flags).toNat / 2 % 2 = 1 <;> simp [h]

theorem errorFlag_setErrorFlag (f : RegisterFile) : (f.setErrorFlag true).errorFlag = true := by
  rw [errorFlag_iff, get_flags_setErrorFlag, if_pos rfl, UInt16.toNat_or, Nat.or_div_two,
    Nat.or_mod_two_eq_one]
  exact .inr rfl

theorem flags_setErrorFlag_lt {f : RegisterFile} (h : (f.get .flags).toNat < 4) :
    ((f.setErrorFlag true).get .flags).toNat < 4 := by
  rw [get_flags_setErrorFlag, if_pos rfl, UInt16.toNat_or]
  exact Nat.or_lt_two_pow (n := 2) h (by decide)

end RegisterFile

namespace Machine

/-- What can be done to a machine from outside. A run without a limit has more cycles to use up than
any run has; the flag that asks for a pause can be raised before a run and, as the schedule says, in
front of any cycle of it. -/
inductive Operation where
  | load (p : Program)
  | reset
  | step
  | run (signals : Schedule) (limit : Nat)
  | pause
  | requestPause
  | addBreakpoint (a : Word)
  | removeBreakpoint (a : Word)
  | provideInput (s : String)
  | elapse (milliseconds : Nat)

def Operation.apply (m : Machine Monitor) : Operation → Machine Monitor
  | load p => (m.load Monitor.system p).2
  | reset => m.reset Monitor.system
  | step => (m.step Monitor.system).2
  | run signals limit => (m.runScheduled Monitor.system signals limit).2
  | pause => m.pause
  | requestPause => m.requestPause
  | addBreakpoint a => m.addBreakpoint a
  | removeBreakpoint a => (m.removeBreakpoint a).2
  | provideInput s => m.provideInput s
  | elapse milliseconds => m.elapse milliseconds

end Machine

namespace Monitor

open Minicomputer.Machine

/-- What belongs together in a machine that no system call is looking at. -/
structure Consistent (m : Machine Monitor) : Prop where
  fault : m.status = .permanentError ↔ m.fault.isSome = true
  errorFlag : m.fault.isSome = true ↔ m.registers.errorFlag = true
  flags : (m.registers.get .flags).toNat < 4
  system : m.system.isSome = true

variable {m n : Machine Monitor}

theorem Consistent.of_eq (h : Consistent m) (hstatus : n.status = m.status)
    (hfault : n.fault = m.fault) (hflags : n.registers.get .flags = m.registers.get .flags)
    (hsystem : n.system.isSome = true) : Consistent n where
  fault := by
    rw [hstatus, hfault]
    exact h.fault
  errorFlag := by
    rw [hfault, RegisterFile.errorFlag_iff, hflags, ← RegisterFile.errorFlag_iff]
    exact h.errorFlag
  flags := hflags ▸ h.flags
  system := hsystem

theorem Consistent.setStatus {status : Status} (h : Consistent m) (hm : m.status ≠ .permanentError)
    (hs : status ≠ .permanentError) : Consistent (m.setStatus status) := by
  rw [setStatus_eq]
  exact ⟨iff_of_false hs fun hf => hm (h.fault.mpr hf), h.errorFlag, h.flags, h.system⟩

/-! ### New machines -/

theorem get_flags_initialRegisters : initialRegisters.get .flags = 0 :=
  (RegisterFile.get_set_of_ne _ _ (by decide)).trans (RegisterFile.get_zero _)

theorem consistent_new (s : Monitor) : Consistent (Machine.new s) := by
  have hflags : (Machine.new s).registers.get .flags = 0 := get_flags_initialRegisters
  have hfault : ¬ (Machine.new s).fault.isSome = true := nofun
  refine ⟨iff_of_false nofun hfault, iff_of_false hfault ?_, hflags ▸ by decide, rfl⟩
  rw [RegisterFile.errorFlag_iff, hflags]
  decide

theorem consistent_reset (h : m.system.isSome = true) : Consistent (m.reset system) := by
  have hsystem : (m.system.map reset).isSome = true := by rwa [Option.isSome_map]
  unfold Machine.reset
  dsimp only
  rw [setStatus_eq]
  exact (consistent_new default).of_eq rfl rfl rfl hsystem

theorem consistent_load (p : Program) (h : m.system.isSome = true) :
    Consistent (m.load system p).2 := by
  have hr := consistent_reset h
  unfold Machine.load
  dsimp only
  split
  · exact hr
  · split
    · exact hr.of_eq rfl rfl rfl hr.system
    · refine hr.of_eq rfl rfl ?_ hr.system
      dsimp only
      rw [RegisterFile.get_set_of_ne _ _ (by decide), RegisterFile.get_set_of_ne _ _ (by decide),
        RegisterFile.get_set_of_ne _ _ (by decide)]

/-! ### Execution -/

theorem Consistent.frame (h : Consistent m) (hm : m.status ≠ .permanentError) (hf : m.Frame n)
    (hsystem : n.system.isSome = true) : Consistent n := by
  have hs : n.status ≠ .permanentError := by
    obtain hs | hs | hs := hf.status <;> rw [hs]
    · exact hm
    · decide
    · decide
  have hfault : ¬ n.fault.isSome = true := by
    rw [hf.fault]
    exact fun e => hm (h.fault.mpr e)
  have hflags := h.flags
  have hhalf := hf.flags
  refine ⟨iff_of_false hs hfault, ?_, by omega, hsystem⟩
  rw [hf.fault, RegisterFile.errorFlag_iff, hhalf, ← RegisterFile.errorFlag_iff]
  exact h.errorFlag

theorem consistent_fail (e : Fault) (hflags : (m.registers.get .flags).toNat < 4)
    (hsystem : m.system.isSome = true) : Consistent (m.fail e) := by
  rw [fail_eq]
  exact ⟨iff_of_true rfl rfl, iff_of_true rfl (RegisterFile.errorFlag_setErrorFlag _),
    RegisterFile.flags_setErrorFlag_lt hflags, hsystem⟩

theorem consistent_cycle (hm : m.status = .executing) (h : Consistent m) :
    Consistent (m.cycle system).2 := by
  have hs : m.status ≠ .permanentError := by
    rw [hm]
    decide
  have hsystem := Action.isSome_system_cycle system h.system
  obtain ⟨i, n, hn, hc⟩ | ⟨e, n, hn, hc⟩ := cycle_cases m <;> rw [hc] at hsystem ⊢ <;>
    dsimp only at hsystem ⊢
  · exact (h.frame hs hn hsystem).of_eq rfl rfl rfl hsystem
  · have hflags := h.flags
    have hhalf := hn.flags
    rw [fail_eq] at hsystem
    exact consistent_fail e (by omega) hsystem

theorem consistent_stopAtBreakpoint (h : Consistent m) : Consistent m.stopAtBreakpoint := by
  obtain hb | ⟨hs, -, hb⟩ := m.stopAtBreakpoint_cases <;> rw [hb]
  · exact h
  · exact h.setStatus (by rw [hs]; decide) (by decide)

theorem Consistent.setStatus_executing (h : Consistent m) (hm : m.status.isResumable = true) :
    Consistent (m.setStatus .executing) := by
  refine h.setStatus (fun hs => ?_) (by decide)
  rw [hs] at hm
  cases hm

theorem consistent_runScheduled (signals : Schedule) (limit : Nat) (h : Consistent m) :
    Consistent (m.runScheduled system signals limit).2 := by
  unfold runScheduled
  split
  · next hm =>
    refine continueRun_induction (P := fun _ n => Consistent n) system signals ?_ ?_ ?_ limit
      (h.setStatus_executing hm)
    · exact fun _ h => h.of_eq rfl rfl rfl h.system
    · intro _ n hs _ h
      exact (h.of_eq rfl rfl rfl h.system : Consistent { n with pauseRequested := false }).setStatus
        (by rw [hs]; decide) (by decide)
    · exact fun hs h => consistent_stopAtBreakpoint (consistent_cycle hs h)
  · exact h

theorem consistent_step (h : Consistent m) : Consistent (m.step system).2 := by
  unfold Machine.step
  split
  · next hm => exact consistent_cycle (status_setStatus _ _) (h.setStatus_executing hm)
  · exact h

theorem consistent_pause (h : Consistent m) : Consistent m.pause := by
  unfold Machine.pause
  split
  · next hs => exact h.setStatus (by rw [hs]; decide) (by decide)
  · next hs => exact h.setStatus (by rw [hs]; decide) (by decide)
  · next hs => exact h.setStatus (by rw [hs]; decide) (by decide)
  · exact h

/-! ### Any sequence of operations -/

theorem consistent_apply (op : Operation) (h : Consistent m) : Consistent (op.apply m) := by
  cases op with
  | load p => exact consistent_load p h.system
  | reset => exact consistent_reset h.system
  | step => exact consistent_step h
  | run signals limit => exact consistent_runScheduled signals limit h
  | pause => exact consistent_pause h
  | requestPause => exact h.of_eq rfl rfl rfl h.system
  | addBreakpoint a => exact h.of_eq rfl rfl rfl h.system
  | removeBreakpoint a => exact h.of_eq rfl rfl rfl h.system
  | provideInput s => exact h.of_eq rfl rfl rfl h.system
  | elapse milliseconds =>
    exact h.of_eq rfl rfl rfl ((Option.isSome_map ..).trans h.system)

theorem consistent_foldl (ops : List Operation) (h : Consistent m) :
    Consistent (ops.foldl Operation.apply m) := by
  induction ops generalizing m with
  | nil => exact h
  | cons op ops ih => exact ih (consistent_apply op h)

/-! ### Machines at rest -/

theorem status_apply_of_not_isResumable (op : Operation) (h : m.status.isResumable = false) :
    (op.apply m).status = m.status ∨ m.status = .waiting ∧ op = .pause ∨ op = .reset ∨
      ∃ p, op = .load p := by
  cases op with
  | load p => exact .inr (.inr (.inr ⟨p, rfl⟩))
  | reset => exact .inr (.inr (.inl rfl))
  | step => exact .inl (congrArg (·.2.status) (step_of_not_isResumable system h))
  | run signals limit =>
    exact .inl (congrArg (·.2.status) (runScheduled_of_not_isResumable system signals limit h))
  | pause =>
    change m.pause.status = _ ∨ _
    unfold Machine.pause
    split
    · next hs =>
      rw [hs] at h
      cases h
    · next hs => exact .inr (.inl ⟨hs, rfl⟩)
    · next hs =>
      rw [hs] at h
      cases h
    · exact .inl rfl
  | requestPause | addBreakpoint | removeBreakpoint | provideInput | elapse => exact .inl rfl

/-- After any operations on a new machine its status, its fault and its error flag agree, and no
flags but the two are ever set. A machine that has finished, failed or waits executes nothing and
stays as it is, until it is reset or loaded, or paused where it waits. -/
theorem consistent_of_operations (seed : UInt64) (ops : List Operation) :
    let m := ops.foldl Operation.apply (Machine.new (ofSeed seed))
    (m.status = .permanentError ↔ m.fault.isSome = true) ∧
      (m.fault.isSome = true ↔ m.registers.errorFlag = true) ∧
      (m.registers.get .flags).toNat < 4 ∧ m.system.isSome = true ∧
      (m.status = .finished ∨ m.status = .permanentError ∨ m.status = .waiting →
        m.step system = (.error (.notRunnable m.status), m) ∧ m.run system = (0, m) ∧
          (∀ limit, m.runLimited system limit = (0, m)) ∧
          (∀ signals limit, m.runScheduled system signals limit = (0, m)) ∧
          ∀ op : Operation, (op.apply m).status ≠ m.status →
            op = .reset ∨ (∃ p, op = .load p) ∨ m.status = .waiting ∧ op = .pause) := by
  intro m
  obtain ⟨hfault, hflag, hflags, hsystem⟩ := consistent_foldl ops (consistent_new (ofSeed seed))
  refine ⟨hfault, hflag, hflags, hsystem, fun hs => ?_⟩
  have hr : m.status.isResumable = false := by
    obtain hs | hs | hs := hs <;> rw [hs] <;> rfl
  refine ⟨step_of_not_isResumable system hr, runLimited_of_not_isResumable system unlimited hr,
    fun limit => runLimited_of_not_isResumable system limit hr,
    fun signals limit => runScheduled_of_not_isResumable system signals limit hr, fun op hop => ?_⟩
  obtain h | h | h | h := status_apply_of_not_isResumable op hr
  · exact absurd h hop
  · exact .inr (.inr h)
  · exact .inl h
  · exact .inr (.inl h)

end Monitor
end Minicomputer
