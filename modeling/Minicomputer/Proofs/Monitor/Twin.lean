import Minicomputer.Proofs.Machine.Run
import Minicomputer.Proofs.Monitor.Frame

/-!
# Machines that go the same way

Who listens, what has been noted, the speed and the time of day do not matter to what a machine
does, but for the call that asks for the time. Two machines that differ in nothing else go on
alike, and announce and note the same.
-/

set_option autoImplicit false

namespace Minicomputer

/-- One announcement after the other, each of a few pieces of news. -/
def Audience.announceAll (a : Audience) (news : List (List Announcement)) : Audience :=
  news.foldl announce a

theorem Audience.announce_announceAll (a : Audience) (news : List (List Announcement))
    (more : List Announcement) :
    (a.announceAll news).announce more = a.announceAll (news ++ [more]) :=
  (List.foldl_concat _ _ _ _).symm

namespace Monitor

open Minicomputer.Machine Minicomputer.Action

/-- Two machines, `m` and `n`, that have announced and noted the same since they were `a` and `b`,
and differ in nothing but this, the speed and the clock. -/
def Twin (a b m n : Machine Monitor) : Prop :=
  ∃ news entries speed system,
    m.audience = a.audience.announceAll news ∧ m.log = a.log ++ entries ∧
      Option.Rel (fun s t => s.generator = t.generator) m.system system ∧
        n = { m with
          speed
          system
          audience := b.audience.announceAll news
          log := b.log ++ entries }

variable {a b m n : Machine Monitor}

theorem Twin.announce (h : Twin a b m n) (more : List Announcement) :
    Twin a b (m.announce more) (n.announce more) := by
  obtain ⟨news, entries, speed, system, ha, hl, hs, rfl⟩ := h
  refine ⟨news ++ [more], entries, speed, system, ?_, hl, hs, ?_⟩
  · rw [← Audience.announce_announceAll, ← ha]
    rfl
  · rw [← Audience.announce_announceAll]
    rfl

theorem Twin.status (h : Twin a b m n) : n.status = m.status := by
  obtain ⟨_, _, _, _, -, -, -, rfl⟩ := h
  rfl

theorem Twin.pauseRequested (h : Twin a b m n) : n.pauseRequested = m.pauseRequested := by
  obtain ⟨_, _, _, _, -, -, -, rfl⟩ := h
  rfl

theorem Twin.setStatus (h : Twin a b m n) (status : Status) :
    Twin a b (m.setStatus status) (n.setStatus status) := by
  have hstatus := h.status
  unfold Machine.setStatus
  rw [hstatus]
  split
  · exact h
  · apply Twin.announce
    clear hstatus
    obtain ⟨news, entries, speed, system, ha, hl, hs, rfl⟩ := h
    exact ⟨news, entries, speed, system, ha, hl, hs, rfl⟩

theorem Twin.fail (h : Twin a b m n) (e : Fault) : Twin a b (m.fail e) (n.fail e) := by
  apply Twin.setStatus
  obtain ⟨news, entries, speed, system, ha, hl, hs, rfl⟩ := h
  exact ⟨news, entries, speed, system, ha, hl, hs, rfl⟩

theorem Twin.tick (h : Twin a b m n) : Twin a b m.tick n.tick := by
  obtain ⟨news, entries, speed, system, ha, hl, hs, rfl⟩ := h
  exact ⟨news, entries, speed, system, ha, hl, hs, rfl⟩

theorem Twin.setMemory (h : Twin a b m n) (memory : Memory) :
    Twin a b { m with memory } { n with memory } := by
  obtain ⟨news, entries, speed, system, ha, hl, hs, rfl⟩ := h
  exact ⟨news, entries, speed, system, ha, hl, hs, rfl⟩

theorem Twin.setConsole (h : Twin a b m n) (console : Console) :
    Twin a b { m with console } { n with console } := by
  obtain ⟨news, entries, speed, system, ha, hl, hs, rfl⟩ := h
  exact ⟨news, entries, speed, system, ha, hl, hs, rfl⟩

theorem Twin.registers (h : Twin a b m n) : n.registers = m.registers := by
  obtain ⟨_, _, _, _, -, -, -, rfl⟩ := h
  rfl

theorem Twin.setRegisters (h : Twin a b m n) (registers : RegisterFile) :
    Twin a b { m with registers } { n with registers } := by
  obtain ⟨news, entries, speed, system, ha, hl, hs, rfl⟩ := h
  exact ⟨news, entries, speed, system, ha, hl, hs, rfl⟩

theorem Twin.setRegister (h : Twin a b m n) (r : Register) (w : Word) :
    Twin a b (m.setRegister r w) (n.setRegister r w) := by
  unfold Machine.setRegister
  rw [h.registers]
  exact (h.setRegisters _).announce _

theorem Twin.print (h : Twin a b m n) (s : String) : Twin a b (m.print s) (n.print s) := by
  apply Twin.announce
  obtain ⟨news, entries, speed, system, ha, hl, hs, rfl⟩ := h
  exact ⟨news, entries, speed, system, ha, hl, hs, rfl⟩

theorem congruence_twin (a b : Machine Monitor) :
    Congruence (fun s t => s.generator = t.generator) (Twin a b) where
  registers h := h.registers.symm
  memory := by
    rintro m _ ⟨_, _, _, _, -, -, -, rfl⟩
    rfl
  debugInfo := by
    rintro m _ ⟨_, _, _, _, -, -, -, rfl⟩
    rfl
  setRegister _ w h := h.setRegister _ w
  setTestFlag := by
    intro m n value h
    unfold Machine.setTestFlag
    rw [h.registers]
    exact (h.setRegisters _).announce _
  setMemory memory h := h.setMemory memory
  announce more h := h.announce more
  print s h := h.print s
  note := by
    rintro m _ entry ⟨news, entries, speed, system, ha, hl, hs, rfl⟩
    refine ⟨news, entries.push entry, speed, system, ha, ?_, hs, ?_⟩
    · dsimp only
      rw [hl, Array.push_append]
    · dsimp only
      rw [Array.push_append]
  system := by
    rintro m _ ⟨_, _, _, _, -, -, hs, rfl⟩
    exact hs
  setSystem := by
    rintro m _ s t ⟨news, entries, speed, _, ha, hl, -, rfl⟩ hs
    exact ⟨news, entries, speed, t, ha, hl, hs, rfl⟩
  generator h := h
  setGenerator _ _ := rfl
  setStatus _ h := h.setStatus _

/-! ### Cycles and runs -/

theorem Twin.cycle (h : Twin a b m n) (htimer : ¬ m.Calls .timer) :
    Agree (Twin a b) (m.cycle system) (n.cycle system) := by
  refine agree_cycle (congruence_twin a b) Twin.tick (fun e h => h.fail e) (.inl h)
    (fun ht => absurd ht htimer) fun _ _ _ m' n' h' hm hn => ?_
  have hconsole : n.console = m.console := by
    obtain ⟨_, _, _, _, -, -, -, rfl⟩ := h
    rfl
  exact .of_eq (hm.trans (hconsole.symm.trans hn.symm)) h'.setConsole

theorem Twin.stopAtBreakpoint (h : Twin a b m n) :
    Twin a b m.stopAtBreakpoint n.stopAtBreakpoint := by
  have hs : n.status = m.status ∧ n.breakpoints = m.breakpoints ∧ n.pc = m.pc := by
    obtain ⟨_, _, _, _, -, -, -, rfl⟩ := h
    exact ⟨rfl, rfl, rfl⟩
  unfold Machine.stopAtBreakpoint
  rw [hs.1, hs.2.1, hs.2.2]
  split
  · exact h.setStatus .breakpoint
  · exact h

theorem Twin.setPauseRequested (h : Twin a b m n) (pauseRequested : Bool) :
    Twin a b { m with pauseRequested } { n with pauseRequested } := by
  obtain ⟨news, entries, speed, system, ha, hl, hs, rfl⟩ := h
  exact ⟨news, entries, speed, system, ha, hl, hs, rfl⟩

theorem Twin.hear (h : Twin a b m n) (signals : Schedule) (executed : Nat) :
    Twin a b (m.hear signals executed) (n.hear signals executed) := by
  unfold Machine.hear
  split
  · exact h.setPauseRequested true
  · exact h

theorem Twin.paused (h : Twin a b m n) (signals : Schedule) (executed : Nat) :
    Twin a b ({ m.hear signals executed with pauseRequested := false }.setStatus .ready)
      ({ n.hear signals executed with pauseRequested := false }.setStatus .ready) :=
  ((h.hear signals executed).setPauseRequested false).setStatus .ready

/-- A run whose cycles do not ask for the time, each of them seen by the run that ends before it. -/
theorem Twin.continueRun {signals : Schedule} {executed limit : Nat} (h : Twin a b m n)
    (ht : ∀ k, executed + k < (m.continueRun system signals executed limit).1 →
      ¬ (m.continueRun system signals executed k).2.Calls .timer) :
    (n.continueRun system signals executed limit).1 =
        (m.continueRun system signals executed limit).1 ∧
      Twin a b (m.continueRun system signals executed limit).2
        (n.continueRun system signals executed limit).2 := by
  induction limit generalizing executed m n with
  | zero =>
    obtain hs | ⟨hs, hp⟩ | ⟨-, hp⟩ := turn_cases signals executed m
    · rw [continueRun_of_not_executing _ _ _ _ hs,
        continueRun_of_not_executing _ _ _ _ (h.status ▸ hs)]
      exact ⟨rfl, h⟩
    · rw [continueRun_of_pause _ _ hs hp,
        continueRun_of_pause _ _ (h.status ▸ hs) ((h.hear _ _).pauseRequested ▸ hp)]
      exact ⟨rfl, h.paused signals executed⟩
    · rw [continueRun_zero _ hp, continueRun_zero _ ((h.hear _ _).pauseRequested ▸ hp)]
      exact ⟨rfl, h⟩
  | succ limit ih =>
    obtain hs | ⟨hs, hp⟩ | ⟨hs, hp⟩ := turn_cases signals executed m
    · rw [continueRun_of_not_executing _ _ _ _ hs,
        continueRun_of_not_executing _ _ _ _ (h.status ▸ hs)]
      exact ⟨rfl, h⟩
    · rw [continueRun_of_pause _ _ hs hp,
        continueRun_of_pause _ _ (h.status ▸ hs) ((h.hear _ _).pauseRequested ▸ hp)]
      exact ⟨rfl, h.paused signals executed⟩
    · have hn : (n.hear signals executed).pauseRequested = false :=
        (h.hear _ _).pauseRequested.trans hp
      rw [continueRun_succ _ limit hs hp] at ht ⊢
      rw [continueRun_succ _ limit (h.status.trans hs) hn]
      have hfirst : ¬ m.Calls .timer := by
        have hlt := le_continueRun_fst system signals (executed + 1) limit
          (m.cycle system).2.stopAtBreakpoint
        have hzero := ht 0 (by omega)
        rw [continueRun_zero _ hp] at hzero
        exact hzero
      -- What the rest of the run executes, the whole run executes one cycle later.
      refine ih (h.cycle hfirst).2.stopAtBreakpoint fun k hk => ?_
      have hnext := ht (k + 1) (by omega)
      rw [continueRun_succ _ k hs hp] at hnext
      exact hnext

/-- The same from outside. -/
theorem Twin.runScheduled {signals : Schedule} {limit : Nat} (h : Twin a b m n)
    (ht : ∀ k < (m.runScheduled system signals limit).1,
      ¬ (m.runScheduled system signals k).2.Calls .timer) :
    (n.runScheduled system signals limit).1 = (m.runScheduled system signals limit).1 ∧
      Twin a b (m.runScheduled system signals limit).2
        (n.runScheduled system signals limit).2 := by
  unfold Machine.runScheduled at ht ⊢
  rw [h.status]
  split
  · next hr =>
    rw [if_pos hr] at ht
    exact (h.setStatus .executing).continueRun fun k hk => by
      have hm := ht k (by omega)
      rw [if_pos hr] at hm
      exact hm
  · exact ⟨rfl, h⟩

theorem Twin.step (h : Twin a b m n) (ht : m.status.isResumable = true → ¬ m.Calls .timer) :
    Agree (Twin a b) (m.step system) (n.step system) := by
  unfold Machine.step
  rw [h.status]
  split
  · next hr =>
    refine (h.setStatus .executing).cycle ?_
    have hm := ht hr
    rw [setStatus_eq]
    exact hm
  · exact ⟨rfl, h⟩

end Monitor
end Minicomputer
