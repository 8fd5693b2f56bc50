import Minicomputer.Proofs.Machine.Cycle

/-!
# Calls within calls

An operating system that serves a call has the whole machine in its hands and may step it, run it or
load it. Its own place in the machine is empty while the call lasts. So an instruction that makes
another call finds nobody there and ends in a fault, and whatever is done to the machine in between
comes out as it would with any other operating system.
-/

set_option autoImplicit false

namespace Minicomputer

variable {σ : Type}

/-- How an instruction ends that makes a call while one is being served. -/
def Fault.inProgress : Fault := .systemCall "system call made while one is in progress"

namespace Machine

/-! ### Handlers -/

/-- What can be done to a machine by those who have it. -/
inductive Method (σ : Type) where
  /-- Any change but of the operating system. -/
  | edit (change : Machine σ → Machine σ) (keeps : ∀ m, (change m).system = m.system)
  | reset
  | load (p : Program)
  | step
  | run (signals : Schedule) (limit : Nat)

/-- What a method gives back. -/
inductive Feedback where
  | done
  | loaded (result : Except Fault Unit)
  | stepped (result : Except Fault Instruction)
  | ran (cycles : Nat)

def Method.perform (S : System σ) (m : Machine σ) : Method σ → Feedback × Machine σ
  | edit change _ => (.done, change m)
  | reset => (.done, m.reset S)
  | load p => (m.load S p).map .loaded id
  | step => (m.step S).map .stepped id
  | run signals limit => (m.runScheduled S signals limit).map .ran id

/-- What a handler does next. -/
inductive Move (σ : Type) where
  | perform (d : Method σ)
  | answer (reply : Except Fault Reply) (state : σ)

/-- What methods have given back, with the machine after each, the latest first. -/
abbrev History (σ : Type) := List (Feedback × Machine σ)

/-- A handler is called with a selector, its state and a machine, and goes by them and by all that
it has seen since. -/
abbrev Handler (σ : Type) := Byte → σ → Machine σ → History σ → Move σ

/-- What a handler has seen after `i` moves at most, and the machine it has then. An answer is its
last move. -/
def attend (S : System σ) (next : History σ → Move σ) (k : Machine σ) :
    Nat → History σ × Machine σ
  | 0 => ([], k)
  | i + 1 =>
    let (seen, n) := attend S next k i
    match next seen with
    | .perform d => (d.perform S n :: seen, (d.perform S n).2)
    | .answer _ _ => (seen, n)

/-- After some moves the handler gives this answer and this machine back. -/
def Answers (S : System σ) (next : History σ → Move σ) (k : Machine σ)
    (r : (Except Fault Reply × σ) × Machine σ) : Prop :=
  ∃ i, next (attend S next k i).1 = .answer r.1.1 r.1.2 ∧ (attend S next k i).2 = r.2

end Machine

open Machine

/-- Calls to the operating system are served as the handler does, if it ever answers. -/
def System.Carries (S : System σ) (h : Handler σ) : Prop :=
  ∀ c s k r, k.system = none → Answers S (h c s k) k r → S.call c s k = r

namespace Action

variable (S T : System σ) {m : Machine σ} {word data : Word}

/-! ### Other operating systems -/

/-- Only calls depend on the operating system. -/
theorem execute_eq {i : Instruction} (h : ∀ c, i ≠ .sys c) : execute T i = execute S i := by
  cases i with
  | sys c => exact absurd rfl (h c)
  | _ => rfl

/-- A cycle depends on the operating system in what the call comes to that it makes, if any. -/
theorem cycle_congr
    (h : ∀ word data c, m.Presents word data → Instruction.decode word data = some (.sys c) →
      (systemCall T c).run (m.poised word data (.sys c)) =
        (systemCall S c).run (m.poised word data (.sys c))) :
    m.cycle T = m.cycle S := by
  suffices hr : (fetchAndExecute T).run m = (fetchAndExecute S).run m by
    unfold Machine.cycle
    rw [hr]
  cases m.finds with
  | instruction word data i hp hd =>
    rw [run_fetchAndExecute_of_some T hp hd, run_fetchAndExecute_of_some S hp hd]
    refine congrArg _ ?_
    -- The two systems are looked at by one instruction only.
    by_cases hs : ∃ c, i = .sys c
    · obtain ⟨c, rfl⟩ := hs
      exact h word data c hp hd
    · rw [execute_eq S T fun c e => hs ⟨c, e⟩]
  | undecodable word data hp hd =>
    rw [run_fetchAndExecute_of_none T hp hd, run_fetchAndExecute_of_none S hp hd]
  | nothing hp =>
    obtain ⟨e, n, he, -⟩ := run_fetch_of_not_presents hp
    rw [run_fetchAndExecute_of_error T he, run_fetchAndExecute_of_error S he]

theorem cycle_congr_of_not_upcoming (h : ∀ c, ¬ m.Upcoming (.sys c)) : m.cycle T = m.cycle S :=
  cycle_congr S T fun word data c hp hd => absurd ⟨word, data, hp, hd⟩ (h c)

/-! ### Machines without an operating system -/

theorem cycle_congr_of_vacant (h : m.system = none) : m.cycle T = m.cycle S :=
  cycle_congr S T fun word data c _ _ => by
    have hv : (m.poised word data (.sys c)).system = none := h
    rw [run_systemCall_of_none T c hv, run_systemCall_of_none S c hv]

theorem vacant_systemCall {n : Machine σ} (c : Byte) (h : n.system = none) :
    ((systemCall S c).run n).2.system = none := by
  rw [run_systemCall_of_none S c h]
  exact h

theorem vacant_cycle (h : m.system = none) : (m.cycle S).2.system = none :=
  system_cycle S (Q := fun s => s = none) (vacant_systemCall S) h

theorem cycle_of_vacant {c : Byte} (h : m.system = none) (hc : m.Upcoming (.sys c)) :
    ∃ n : Machine σ, m.cycle S = (.error .inProgress, n.fail .inProgress) := by
  obtain ⟨word, data, hp, hd⟩ := hc
  have hv : (m.poised word data (.sys c)).system = none := h
  have hr := run_fetchAndExecute_of_some S hp hd
  rw [execute, run_systemCall_of_none S c hv] at hr
  exact ⟨_, cycle_of_error S hr⟩

end Action

namespace Machine

variable (S T : System σ) {m n : Machine σ} {word data : Word} {c : Byte}

open Minicomputer.Action

theorem presents_setStatus (status : Status) :
    (m.setStatus status).Presents word data ↔ m.Presents word data := by
  unfold Presents dataWord pc
  rw [registers_setStatus, memory_setStatus]

theorem upcoming_setStatus (status : Status) (i : Instruction) :
    (m.setStatus status).Upcoming i ↔ m.Upcoming i := by
  unfold Upcoming
  simp only [presents_setStatus]

theorem step_congr_of_vacant (h : m.system = none) : m.step T = m.step S := by
  unfold step
  rw [cycle_congr_of_vacant S T ((m.system_setStatus _).trans h)]

theorem step_congr_of_not_upcoming (h : ∀ c, ¬ m.Upcoming (.sys c)) : m.step T = m.step S := by
  unfold step
  rw [cycle_congr_of_not_upcoming S T fun c e => h c ((upcoming_setStatus _ _).mp e)]

/-- An instruction that makes a call is of no use to a machine that is serving one. -/
theorem step_of_vacant (h : m.system = none) (hm : m.status.isResumable = true)
    (hc : m.Upcoming (.sys c)) :
    (m.step S).1 = .error .inProgress ∧ (m.step S).2.fault = some .inProgress ∧
      (m.step S).2.status = .permanentError := by
  obtain ⟨n, hn⟩ := cycle_of_vacant S ((m.system_setStatus .executing).trans h)
    ((upcoming_setStatus _ _).mpr hc)
  rw [step_of_isResumable S hm, hn, fail_eq]
  exact ⟨rfl, rfl, rfl⟩

theorem continueRun_congr_of_vacant (signals : Schedule) (executed limit : Nat)
    (h : m.system = none) :
    continueRun T signals executed limit m = continueRun S signals executed limit m := by
  induction limit generalizing executed m with
  | zero =>
    unfold continueRun
    rfl
  | succ limit ih =>
    obtain hs | ⟨hs, hp⟩ | ⟨hs, hp⟩ := turn_cases signals executed m
    · rw [continueRun_of_not_executing T _ _ _ hs, continueRun_of_not_executing S _ _ _ hs]
    · rw [continueRun_of_pause T _ hs hp, continueRun_of_pause S _ hs hp]
    · have hv : (m.cycle S).2.stopAtBreakpoint.system = none :=
        (system_stopAtBreakpoint _).trans (vacant_cycle S h)
      rw [continueRun_succ T limit hs hp, continueRun_succ S limit hs hp,
        cycle_congr_of_vacant S T h, ih (executed + 1) hv]

theorem runScheduled_congr_of_vacant (signals : Schedule) (limit : Nat) (h : m.system = none) :
    m.runScheduled T signals limit = m.runScheduled S signals limit := by
  unfold runScheduled
  rw [continueRun_congr_of_vacant S T signals 0 limit ((m.system_setStatus _).trans h)]

theorem reset_congr_of_vacant (h : m.system = none) : m.reset T = m.reset S := by
  unfold reset
  rw [h]
  rfl

/-! ### Methods -/

/-- What is true of the operating system stays so if neither calls nor resets make it false. -/
theorem Method.system_perform {Q : Option σ → Prop}
    (hcall : ∀ {n : Machine σ} (c), Q n.system → Q ((systemCall S c).run n).2.system)
    (hreset : ∀ {s}, Q s → Q (s.map S.reset)) (d : Method σ) (h : Q m.system) :
    Q (d.perform S m).2.system := by
  cases d with
  | edit change keeps => exact (keeps m).symm ▸ h
  | reset => exact (system_reset S m).symm ▸ hreset h
  | load p => exact (system_load S p m).symm ▸ hreset h
  | step => exact system_step S hcall h
  | run signals limit => exact system_runScheduled S hcall signals limit h

theorem Method.vacant_perform (d : Method σ) (h : m.system = none) :
    (d.perform S m).2.system = none := by
  refine d.system_perform S (Q := fun s => s = none) (vacant_systemCall S) (fun hs => ?_) h
  rw [hs]
  rfl

/-- No method finds out which operating system it is that is missing. -/
theorem Method.perform_congr_of_vacant (d : Method σ) (h : m.system = none) :
    d.perform T m = d.perform S m := by
  cases d with
  | edit change keeps => rfl
  | reset => exact congrArg (Prod.mk _) (reset_congr_of_vacant S T h)
  | load p =>
    have hl : m.load T p = m.load S p := by
      unfold Machine.load
      rw [reset_congr_of_vacant S T h]
    exact congrArg (Prod.map _ id) hl
  | step => exact congrArg (Prod.map _ id) (step_congr_of_vacant S T h)
  | run signals limit =>
    exact congrArg (Prod.map _ id) (runScheduled_congr_of_vacant S T signals limit h)

theorem isSome_system_perform (ds : List (Method σ)) (h : m.system.isSome = true) :
    (ds.foldl (fun m d => (d.perform S m).2) m).system.isSome = true := by
  induction ds generalizing m with
  | nil => exact h
  | cons d ds ih =>
    refine ih (d.system_perform S (Q := fun s => s.isSome = true) (isSome_system_systemCall S)
      (fun {s} hs => ?_) h)
    rwa [Option.isSome_map]

/-! ### What goes on during a call -/

section

variable (next : History σ → Move σ) (k : Machine σ)

theorem vacant_attend (h : k.system = none) (i : Nat) : (attend S next k i).2.system = none := by
  induction i with
  | zero => exact h
  | succ i ih =>
    rw [attend]
    dsimp only
    split
    · exact Method.vacant_perform S _ ih
    · exact ih

/-- The operating system plays no part in the methods that it performs itself. -/
theorem attend_congr (h : k.system = none) (i : Nat) : attend T next k i = attend S next k i := by
  induction i with
  | zero => rfl
  | succ i ih =>
    rw [attend, attend, ih]
    dsimp only
    split
    · rw [Method.perform_congr_of_vacant S T _ (vacant_attend S next k h i)]
    · rfl

variable {next k}

theorem attend_of_answer {i j : Nat} {reply : Except Fault Reply} {t : σ} (hij : i ≤ j)
    (h : next (attend S next k i).1 = .answer reply t) :
    attend S next k j = attend S next k i := by
  induction j, hij using Nat.le_induction with
  | base => rfl
  | succ j _ ih =>
    rw [attend, ih]
    dsimp only
    rw [h]

theorem answers_unique {r r' : (Except Fault Reply × σ) × Machine σ} (h : Answers S next k r)
    (h' : Answers S next k r') : r = r' := by
  obtain ⟨i, hi, hn⟩ := h
  obtain ⟨j, hj, hn'⟩ := h'
  have hij : attend S next k i = attend S next k j := by
    obtain hij | hij := Nat.le_total i j
    · exact (attend_of_answer S hij hi).symm
    · exact attend_of_answer S hij hj
  rw [hij, hj] at hi
  rw [hij, hn'] at hn
  obtain ⟨⟨reply, t⟩, n⟩ := r
  obtain ⟨⟨reply', t'⟩, n'⟩ := r'
  obtain ⟨rfl, rfl⟩ := Move.answer.inj hi
  exact congrArg _ hn.symm

end

/-- An operating system that does nothing. -/
def passive : System σ where
  call _ s := pure (.ok .proceed, s)
  reset := id

open Classical in
/-- The operating system that a handler makes. -/
noncomputable def Handler.system (h : Handler σ) (reset : σ → σ) : System σ where
  call c s k :=
    if hr : ∃ r, Answers passive (h c s k) k r then hr.choose else ((.ok .proceed, s), k)
  reset := reset

theorem Handler.carries_system (h : Handler σ) (reset : σ → σ) : (h.system reset).Carries h := by
  intro c s k r hk hr
  -- The machine has no operating system, so it did not matter with which one the handler was tried.
  have hpassive : Answers passive (h c s k) k r := by
    obtain ⟨i, hi⟩ := hr
    rw [attend_congr passive _ _ _ hk] at hi
    exact ⟨i, hi⟩
  unfold Handler.system
  dsimp only
  rw [dif_pos ⟨r, hpassive⟩]
  exact answers_unique passive (Exists.choose_spec _) hpassive

/-! ### Outer calls -/

/-- The machine that a handler is called with. -/
def asking (m : Machine σ) (word data : Word) (c : Byte) : Machine σ :=
  { (m.setStatus .executing).poised word data (.sys c) with system := none }

/-- What a step comes to in which a call was made and this is how it was answered. -/
def served (word : Word) (c : Byte) (r : (Except Fault Reply × σ) × Machine σ) :
    Except Fault Instruction × Machine σ :=
  match conclude word (.sys c) (settle r) with
  | (.ok i, m) => (.ok i, m)
  | (.error e, m) => (.error e, m.fail e)

theorem served_fst (reply : Except Fault Reply) (t : σ) (n : Machine σ) :
    (served word c ((reply, t), n)).1 = reply.map fun _ => .sys c := by
  obtain _ | _ | _ | _ := reply <;> rfl

theorem system_served (r : (Except Fault Reply × σ) × Machine σ) :
    (served word c r).2.system = some r.1.2 := by
  rw [← system_settle r]
  unfold served
  rcases settle r with ⟨e | _, n⟩
  · exact n.system_fail e
  · rfl

/-- The operating system is asked once. -/
theorem step_of_call {s : σ} (hm : m.status.isResumable = true) (hs : m.system = some s)
    (hp : m.Presents word data) (hd : Instruction.decode word data = some (.sys c)) :
    m.step S = served word c (S.call c s (m.asking word data c)) := by
  have hp' := (presents_setStatus .executing).mpr hp
  have hs' : ((m.setStatus .executing).poised word data (.sys c)).system = some s :=
    (m.system_setStatus .executing).trans hs
  have hr := run_fetchAndExecute_of_some S hp' hd
  rw [execute, run_systemCall_of_some S c hs'] at hr
  rw [step_of_isResumable S hm]
  unfold cycle served
  rw [hr]
  rfl

/-- Calls are not made within calls, and the operating system outlasts them.

However far a handler has come that was called, its machine is without an operating system, so that
no other system would have made a difference to what it has seen, and a step that makes a call ends
in a fault. A step from outside asks the operating system once, at an instruction that makes a call,
and at no other; whatever the answer is, the step ends as the answer says and the state that comes
with it is put in place. And once a machine has an operating system, it has one after all that is
done to it, to be asked again. -/
theorem calls_never_nest {h : Handler σ} (hS : S.Carries h) :
    (∀ c s k, k.system = none → ∀ i,
      let (seen, n) := attend S (h c s k) k i
      n.system = none ∧
      (∀ T, attend T (h c s k) k i = (seen, n)) ∧
      ∀ c', n.status.isResumable = true → n.Upcoming (.sys c') →
        (n.step S).1 = .error .inProgress ∧ (n.step S).2.fault = some .inProgress ∧
          (n.step S).2.status = .permanentError) ∧
    (∀ (m : Machine σ) s word data c, m.status.isResumable = true → m.system = some s →
      m.Presents word data → Instruction.decode word data = some (.sys c) →
      let k := asking m word data c
      k.system = none ∧
      (∀ T, m.step T = served word c (T.call c s k)) ∧
      ∀ reply t n, Answers S (h c s k) k ((reply, t), n) →
        (m.step S).1 = reply.map (fun _ => .sys c) ∧ (m.step S).2.system = some t) ∧
    (∀ m : Machine σ,
      (m.status.isResumable = true → m.system ≠ none → ∀ c, ¬ m.Upcoming (.sys c)) →
      ∀ T, m.step T = m.step S) ∧
    ∀ (m : Machine σ) (ds : List (Method σ)), m.system.isSome = true →
      (ds.foldl (fun m d => (Method.perform S m d).2) m).system.isSome = true := by
  refine ⟨fun c s k hk i => ⟨?_, fun T => ?_, fun c' hm hc => ?_⟩,
    fun m s word data c hm hs hp hd => ⟨rfl, fun T => ?_, fun reply t n hr => ?_⟩,
    fun m hm T => ?_, fun m ds => isSome_system_perform S ds⟩
  · exact vacant_attend S _ k hk i
  · exact attend_congr S T _ k hk i
  · exact step_of_vacant S (vacant_attend S _ k hk i) hm hc
  · exact step_of_call T hm hs hp hd
  · rw [step_of_call S hm hs hp hd, hS c s _ _ rfl hr]
    exact ⟨served_fst reply t n, system_served _⟩
  · cases hr : m.status.isResumable with
    | false => rw [step_of_not_isResumable T hr, step_of_not_isResumable S hr]
    | true =>
      by_cases hv : m.system = none
      · exact step_congr_of_vacant S T hv
      · exact step_congr_of_not_upcoming S T (hm hr hv)

/-- A handler of four kinds of calls. The last one steps the machine on which it is called, counts,
and has it go on. -/
def stepping : Handler Nat
  | 0, s, _, _ => .answer (.ok .exit) s
  | 1, s, _, _ => .answer (.ok .needsInput) s
  | 2, s, _, _ => .answer (.error .divisionByZero) s
  | _, _, _, [] => .perform .step
  | _, s, _, _ :: _ => .answer (.ok .proceed) (s + 1)

/-- A machine with two calls in its memory, one after the other. -/
def twoCalls : Machine Nat :=
  { Machine.new 0 with memory := Memory.zero.place 0 [0, 5, 0, 6] }

/-- The first call is answered although the second, made in the middle of it, has failed. -/
theorem calls_never_nest_twoCalls :
    let S := stepping.system id
    (twoCalls.step S).1 = .ok (.sys 5) ∧ (twoCalls.step S).2.system = some 1 ∧
      (((twoCalls.asking 5 0 5).step S).1 = .error .inProgress) := by
  have hp : twoCalls.Presents 5 0 := ⟨by decide +kernel, by decide +kernel⟩
  have hd : Instruction.decode 5 0 = some (.sys 5) := by decide
  obtain ⟨hinner, houter, -⟩ := calls_never_nest _ (stepping.carries_system id)
  obtain ⟨hk, -, hanswer⟩ := houter twoCalls 0 5 0 5 rfl rfl hp hd
  obtain ⟨-, -, hstep⟩ := hinner 5 0 (twoCalls.asking 5 0 5) hk 0
  have hq : (twoCalls.asking 5 0 5).Upcoming (.sys 6) :=
    ⟨6, 0, ⟨by decide +kernel, by decide +kernel⟩, by decide⟩
  obtain ⟨hfirst, hsystem⟩ := hanswer (.ok .proceed) 1 _ ⟨1, rfl, rfl⟩
  exact ⟨hfirst, hsystem, (hstep 6 rfl hq).1⟩

end Machine
end Minicomputer
