import Minicomputer.Monitor.Basic
import Minicomputer.Proofs.Machine.Cycle

/-!
# System calls that respect a relation between machines

The monitor looks at registers and memory as instructions do, and at three things more: its
generator, its clock, and the input. Two related machines go through a cycle alike if their monitors
draw the same numbers, the clock is the same or not asked for, and a call that reads finds input in
both of them or in neither.
-/

set_option autoImplicit false

namespace Minicomputer

/-- The calls that want input. -/
def SystemCall.isReading : SystemCall → Bool
  | rint | rstr | rchr => true
  | _ => false

/-- The next cycle makes a system call. -/
def Machine.Calls {σ : Type} (m : Machine σ) (call : SystemCall) : Prop :=
  ∃ c, m.Upcoming (.sys c) ∧ SystemCall.ofSelector? c = some call

namespace Monitor

open Minicomputer.Action

variable {σ : Type}

/-- What a call answers, with the generator that it leaves. -/
def attend (selector : Byte) (s : Monitor) : Action σ (Reply × Generator) :=
  match SystemCall.ofSelector? selector with
  | none => throw (.systemCall ("unknown system call " ++ Text.marked 2 selector.toNat))
  | some .rnd => random s.generator
  | some call => do return (← serve s.clock call, s.generator)

def answered (s : Monitor) :
    Except Fault (Reply × Generator) × Machine σ → (Except Fault Reply × Monitor) × Machine σ
  | (.ok (reply, generator), m) => ((.ok reply, { s with generator }), m)
  | (.error e, m) => ((.error e, s), m)

theorem attend_of_ne {selector : Byte} {c : SystemCall}
    (h : SystemCall.ofSelector? selector = some c) (hc : c ≠ .rnd) (s : Monitor) :
    attend (σ := σ) selector s = do return (← serve s.clock c, s.generator) := by
  unfold attend
  rw [h]
  cases c <;> first | rfl | contradiction

/-- An unknown call faults, a random number is drawn from the generator, and every other call leaves
the generator as it is. -/
theorem attend_cases (selector : Byte) (s : Monitor) :
    (∃ e, attend (σ := σ) selector s = throw e) ∨
    (attend (σ := σ) selector s = random s.generator) ∨
    ∃ c, SystemCall.ofSelector? selector = some c ∧
      attend (σ := σ) selector s = do return (← serve s.clock c, s.generator) := by
  cases hs : SystemCall.ofSelector? selector with
  | none =>
    refine .inl ⟨.systemCall ("unknown system call " ++ Text.marked 2 selector.toNat), ?_⟩
    unfold attend
    rw [hs]
  | some c =>
    by_cases hc : c = .rnd
    · subst hc
      refine .inr (.inl ?_)
      unfold attend
      rw [hs]
    · exact .inr (.inr ⟨c, rfl, attend_of_ne hs hc s⟩)

theorem call_of_ne {selector : Byte} {c : SystemCall}
    (h : SystemCall.ofSelector? selector = some c) (hc : c ≠ .rnd) (s : Monitor) :
    call (σ := σ) selector s = do return (← (serve s.clock c).run, s) := by
  unfold call
  rw [h]
  cases c <;> first | rfl | contradiction

/-- A call other than for a random number leaves the monitor as it is. -/
theorem call_selector {c : SystemCall} (hc : c ≠ .rnd) (s : Monitor) (m : Machine σ) :
    call c.selector s m = ((((serve s.clock c).run m).1, s), ((serve s.clock c).run m).2) := by
  rw [call_of_ne (SystemCall.ofSelector?_selector c) hc]
  rfl

theorem run_bind_call {α β : Type} (x : StateM (Machine σ) α) (f : α → StateM (Machine σ) β)
    {m n : Machine σ} {a : α} (h : x m = (a, n)) : (x >>= f) m = f a n := by
  change f (x m).1 (x m).2 = _
  rw [h]

theorem call_eq (selector : Byte) (s : Monitor) (m : Machine σ) :
    call selector s m = answered s ((attend selector s).run m) := by
  cases h : SystemCall.ofSelector? selector with
  | none =>
    unfold call attend
    rw [h]
    rfl
  | some c =>
    by_cases hc : c = .rnd
    · subst hc
      unfold call attend
      rw [h]
      dsimp only
      rcases hr : (random s.generator).run m with ⟨_ | ⟨reply, g⟩, n⟩
      · exact run_bind_call _ _ hr
      · exact run_bind_call _ _ hr
    · rw [call_of_ne h hc, attend_of_ne h hc]
      rcases hr : (serve s.clock c).run m with ⟨_ | reply, n⟩
      · rw [run_bind_of_error hr]
        exact run_bind_call _ _ hr
      · rw [run_bind_of_ok hr]
        exact run_bind_call _ _ hr

theorem run_systemCall_eq {m : Machine Monitor} (c : Byte) {s : Monitor} (h : m.system = some s) :
    (systemCall system c).run m =
      settle (answered s ((attend c s).run { m with system := none })) := by
  rw [run_systemCall_of_some system c h]
  exact congrArg settle (call_eq c s _)

/-- Only one call asks for the time. -/
theorem serve_eq_of_ne {c : SystemCall} (hc : c ≠ .timer) (clock clock' : Nat) :
    serve (σ := σ) clock c = serve clock' c := by
  cases c <;> first | rfl | contradiction

/-! ### Calls that do not read -/

theorem composed_address (r : Register) : Composed (address r : Action σ Int) :=
  .bind (.register r) fun _ => .pure _

theorem composed_count (r : Register) : Composed (count r : Action σ Nat) :=
  .bind (.register r) fun _ => .pure _

theorem composed_answer (w : Word) : Composed (answer w : Action σ Reply) :=
  .bind (.setRegister (by decide) w) fun _ => .pure _

theorem composed_storeBytes (a : Int) (bs : List Byte) :
    Composed (storeBytes a bs : Action σ Unit) := by
  induction bs generalizing a with
  | nil => exact .pure ()
  | cons b bs ih => exact .bind (.storeByte a b) fun _ => ih _

theorem composed_conversion {c : Char} {convert : Word → Action σ String}
    (h : format.conversion? c = some convert) (w : Word) : Composed (convert w) := by
  unfold format.conversion? at h
  split at h <;> simp only [Option.some.injEq, reduceCtorEq] at h <;> subst h
  · exact .pure (toString w.signed)
  · exact .pure (w.low.char.toString)
  · exact .loadText _

theorem composed_format (arguments : List Register) (s : List Char) :
    Composed (format arguments s : Action σ (List Char)) := by
  fun_induction format arguments s with
  | case1 => exact .pure []
  | case2 arguments s ih => exact .bind ih fun _ => .pure _
  | case3 c s hc convert r rest hv ih =>
    exact .bind (.register r) fun w => .bind (composed_conversion hv w) fun _ =>
      .bind ih fun _ => .pure _
  | case4 arguments c s hc h ih => exact .bind ih fun _ => .pure _
  | case5 arguments c s h₁ h₂ ih => exact .bind ih fun _ => .pure _

/-- What reads from the input looks at the console, which elementary actions do not. -/
theorem composed_serve (clock : Nat) {c : SystemCall} (hc : c.isReading = false) :
    Composed (serve clock c : Action σ Reply) := by
  cases c with
  | rint | rstr | rchr => cases hc
  | exit | sleep => exact .pure _
  | wint | wchr => exact .bind (.register _) fun _ => .bind (.print _) fun _ => .pure _
  | wstr =>
    exact .bind (composed_address _) fun _ => .bind (.loadText _) fun _ =>
      .bind (.print _) fun _ => .pure _
  | printf =>
    exact .bind (composed_address _) fun _ => .bind (.loadText _) fun _ =>
      .bind (composed_format _ _) fun _ => .bind (.print _) fun _ => .pure _
  | atoi =>
    exact .bind (composed_address _) fun _ => .bind (.loadText _) fun _ => composed_answer _
  | timer => exact composed_answer _
  | joystick => exact .bind (.register _) fun _ => composed_answer _
  | memcpy =>
    exact .bind (composed_address _) fun _ => .bind (composed_address _) fun _ =>
      .bind (composed_count _) fun _ => .bind (composed_copy _ _ _ _) fun _ => .pure _
  | error =>
    exact .bind (composed_address _) fun _ => .bind (.loadText _) fun _ =>
      .bind (.print _) fun _ => .throw _
  | _ => exact composed_answer _

theorem composed_random (g : Generator) :
    Composed (random g : Action σ (Reply × Generator)) := by
  apply Composed.bind (.register _)
  intro low
  apply Composed.bind (.register _)
  intro high
  exact .bind (composed_answer _) fun _ => .pure _

/-- What is done with a line that was asked for. -/
def keepLine (line : String) : Action σ Reply := do
  let pointer ← address .a0
  let bytes := (bytesOfText line).take (← count .a1)
  storeBytes pointer bytes
  answer (UInt16.ofNat bytes.length)

theorem composed_keepLine (line : String) : Composed (keepLine line : Action σ Reply) :=
  .bind (composed_address _) fun _ => .bind (composed_count _) fun _ =>
    .bind (composed_storeBytes _ _) fun _ => composed_answer _

/-! ### Calls that read -/

/-- Both machines find a line, and the same one, or neither does; likewise for a character. -/
structure ReadAlike (R : Machine σ → Machine σ → Prop) (m n : Machine σ) : Prop where
  line : Option.Rel (fun p q => p.1 = q.1 ∧ R { m with console := p.2 } { n with console := q.2 })
    m.console.readLine? n.console.readLine?
  char : Option.Rel (fun p q => p.1 = q.1 ∧ R { m with console := p.2 } { n with console := q.2 })
    m.console.readChar? n.console.readChar?

theorem ReadAlike.of_eq {R : Machine σ → Machine σ → Prop} {m n : Machine σ}
    (h : m.console = n.console)
    (hR : ∀ console, R { m with console } { n with console }) : ReadAlike R m n where
  line := by
    rw [h]
    cases n.console.readLine? with
    | none => exact .none
    | some p => exact .some ⟨rfl, hR p.2⟩
  char := by
    rw [h]
    cases n.console.readChar? with
    | none => exact .none
    | some p => exact .some ⟨rfl, hR p.2⟩

section

variable {R : Machine σ → Machine σ → Prop} {m n : Machine σ}

theorem run_answerLine_of_none (k : String → Action σ Reply) (h : m.console.readLine? = none) :
    (answerLine k).run m = (.ok .needsInput, m) := by
  have hg : (get : Action σ (Machine σ)).run m = (.ok m, m) := rfl
  rw [answerLine, run_bind_of_ok hg, h]
  rfl

theorem run_answerLine_of_some (k : String → Action σ Reply) {line : String} {console : Console}
    (h : m.console.readLine? = some (line, console)) :
    (answerLine k).run m = (k line).run { m with console } := by
  have hg : (get : Action σ (Machine σ)).run m = (.ok m, m) := rfl
  rw [answerLine, run_bind_of_ok hg, h]
  rfl

theorem run_rchr_of_none (clock : Nat) (h : m.console.readChar? = none) :
    (serve clock .rchr).run m = (.ok .needsInput, m) := by
  have hg : (get : Action σ (Machine σ)).run m = (.ok m, m) := rfl
  rw [serve, run_bind_of_ok hg, h]
  rfl

theorem run_rchr_of_some (clock : Nat) {c : Char} {console : Console}
    (h : m.console.readChar? = some (c, console)) :
    (serve clock .rchr).run m = (answer (UInt16.ofNat c.toNat)).run { m with console } := by
  have hg : (get : Action σ (Machine σ)).run m = (.ok m, m) := rfl
  rw [serve, run_bind_of_ok hg, h]
  rfl

theorem agree_answerLine {k : String → Action σ Reply} (hk : ∀ line, Respects R (k line))
    (h : R m n) (hin : ReadAlike R m n) :
    Agree R ((answerLine k).run m) ((answerLine k).run n) := by
  have hl := hin.line
  rcases hm : m.console.readLine? with _ | ⟨line, c⟩ <;>
    rcases hn : n.console.readLine? with _ | ⟨line', c'⟩ <;> rw [hm, hn] at hl <;> cases hl
  · rw [run_answerLine_of_none k hm, run_answerLine_of_none k hn]
    exact ⟨rfl, h⟩
  · next hl =>
    obtain ⟨rfl, hr⟩ : line = line' ∧ R { m with console := c } { n with console := c' } := hl
    rw [run_answerLine_of_some k hm, run_answerLine_of_some k hn]
    exact hk line hr

theorem agree_serve_of_isReading (hR : Action.Congruence R) (clock : Nat) {c : SystemCall}
    (hc : c.isReading = true) (h : R m n) (hin : ReadAlike R m n) :
    Agree R ((serve clock c).run m) ((serve clock c).run n) := by
  cases c with
  | rint => exact agree_answerLine (fun _ => (composed_answer _).respects hR) h hin
  | rstr => exact agree_answerLine (fun line => (composed_keepLine line).respects hR) h hin
  | rchr =>
    have hl := hin.char
    rcases hm : m.console.readChar? with _ | ⟨x, c⟩ <;>
      rcases hn : n.console.readChar? with _ | ⟨x', c'⟩ <;> rw [hm, hn] at hl <;> cases hl
    · rw [run_rchr_of_none clock hm, run_rchr_of_none clock hn]
      exact ⟨rfl, h⟩
    · next hl =>
      obtain ⟨rfl, hr⟩ : x = x' ∧ R { m with console := c } { n with console := c' } := hl
      rw [run_rchr_of_some clock hm, run_rchr_of_some clock hn]
      exact (composed_answer _).respects hR hr
  | _ => cases hc

/-- Two monitors that draw the same numbers serve a call alike. -/
theorem agree_attend (hR : Action.Congruence R) {selector : Byte} {s t : Monitor}
    (hg : s.generator = t.generator)
    (hclock : SystemCall.ofSelector? selector = some .timer → s.clock = t.clock) (h : R m n)
    (hin : ∀ c, SystemCall.ofSelector? selector = some c → c.isReading = true → ReadAlike R m n) :
    Agree R ((attend selector s).run m) ((attend selector t).run n) := by
  cases hs : SystemCall.ofSelector? selector with
  | none =>
    unfold attend
    rw [hs]
    exact ⟨rfl, h⟩
  | some c =>
    by_cases hc : c = .rnd
    · subst hc
      unfold attend
      rw [hs, hg]
      exact (composed_random _).respects hR h
    · have hsame : serve (σ := σ) s.clock c = serve t.clock c := by
        by_cases ht : c = .timer
        · rw [hclock (hs.trans (congrArg some ht))]
        · exact serve_eq_of_ne ht _ _
      rw [attend_of_ne hs hc, attend_of_ne hs hc, hg, hsame]
      refine Agree.bind ?_ fun _ => respects_pure _
      cases hr : c.isReading with
      | false => exact (composed_serve _ hr).respects hR h
      | true => exact agree_serve_of_isReading hR _ hr h (hin c hs hr)

end

/-! ### Cycles -/

theorem rel_eq_iff {α : Type} {s t : Option α} : Option.Rel Eq s t ↔ s = t := by
  constructor
  · rintro (rfl | -) <;> rfl
  · rintro rfl
    cases s with
    | none => exact .none
    | some a => exact .some rfl

/-- A relation that survives cycles on machines with a monitor, with one between the monitors. -/
structure Congruence (T : Monitor → Monitor → Prop)
    (R : Machine Monitor → Machine Monitor → Prop) : Prop extends Action.Congruence R where
  system : ∀ {m n}, R m n → Option.Rel T m.system n.system
  setSystem : ∀ {m n s t}, R m n → Option.Rel T s t →
    R { m with system := s } { n with system := t }
  generator : ∀ {s t}, T s t → s.generator = t.generator
  setGenerator : ∀ {s t} (generator), T s t → T { s with generator } { t with generator }
  setStatus : ∀ {m n status}, status = .finished ∨ status = .waiting → R m n →
    R (m.setStatus status) (n.setStatus status)

section

variable {T : Monitor → Monitor → Prop} {R : Machine Monitor → Machine Monitor → Prop}
  (hR : Congruence T R) {m n : Machine Monitor}

include hR

theorem agree_settle {s t : Monitor} (ht : T s t)
    {p q : Except Fault (Reply × Generator) × Machine Monitor} (h : Agree R p q) :
    Agree R (settle (answered s p)) (settle (answered t q)) := by
  obtain ⟨r, m⟩ := p
  obtain ⟨_, n⟩ := q
  obtain ⟨rfl, hm⟩ : r = _ ∧ R m n := h
  cases r with
  | error e => exact ⟨rfl, hR.setSystem hm (.some ht)⟩
  | ok p =>
    obtain ⟨reply, g⟩ := p
    have hs := hR.setSystem hm (.some (hR.setGenerator g ht))
    have hpc : m.pc = n.pc := congrArg RegisterFile.pc (hR.registers hm)
    cases reply with
    | proceed => exact ⟨rfl, hs⟩
    | exit => exact ⟨rfl, hR.setStatus (.inl rfl) hs⟩
    | needsInput =>
      refine ⟨rfl, hR.setStatus (.inr rfl) ?_⟩
      rw [hpc]
      exact hR.setRegister (by decide) _ hs

theorem agree_systemCall {c : Byte} (h : R m n)
    (hclock : SystemCall.ofSelector? c = some .timer → ∀ s t, T s t → s.clock = t.clock)
    (hin : ∀ call, SystemCall.ofSelector? c = some call → call.isReading = true →
      ReadAlike R { m with system := none } { n with system := none }) :
    Agree R ((systemCall system c).run m) ((systemCall system c).run n) := by
  have hs := hR.system h
  rcases hm : m.system with _ | s <;> rcases hn : n.system with _ | t <;> rw [hm, hn] at hs <;>
    cases hs
  · rw [run_systemCall_of_none system c hm, run_systemCall_of_none system c hn]
    exact ⟨rfl, h⟩
  · next hs =>
    rw [run_systemCall_eq c hm, run_systemCall_eq c hn]
    exact agree_settle hR hs (agree_attend hR.toCongruence (hR.generator hs)
      (fun e => hclock e s t hs) (hR.setSystem h .none) hin)

/-- Related machines read alike where a call of the next cycle reads. -/
def ReadsAlike (R : Machine σ → Machine σ → Prop) (m n : Machine σ) : Prop :=
  ∀ call, m.Calls call → call.isReading = true → ∀ m' n', R m' n' → m'.console = m.console →
    n'.console = n.console → ReadAlike R m' n'

theorem agree_fetchAndExecute (ht : ∀ {m n}, R m n → R m.tick n.tick) (h : Fetching R m n)
    (hclock : m.Calls .timer → ∀ s t, T s t → s.clock = t.clock) (hin : ReadsAlike R m n) :
    Agree R ((fetchAndExecute system).run m) ((fetchAndExecute system).run n) := by
  refine Action.agree_fetchAndExecute system hR.toCongruence ht h fun c m' n' hc h' hm hn => ?_
  refine agree_systemCall hR h' (fun e => hclock ⟨c, hc, e⟩) fun call e hr => ?_
  exact hin call ⟨c, hc, e⟩ hr _ _ (hR.setSystem h' .none) hm hn

/-- Two machines, related at the latest when they have fetched, go through a cycle alike. -/
theorem agree_cycle (ht : ∀ {m n}, R m n → R m.tick n.tick)
    (hf : ∀ {m n} (e), R m n → R (m.fail e) (n.fail e)) (h : Fetching R m n)
    (hclock : m.Calls .timer → ∀ s t, T s t → s.clock = t.clock) (hin : ReadsAlike R m n) :
    Agree R (m.cycle system) (n.cycle system) := by
  have he := agree_fetchAndExecute hR ht h hclock hin
  rcases hm : (fetchAndExecute system).run m with ⟨r, m'⟩
  rcases hn : (fetchAndExecute system).run n with ⟨r', n'⟩
  rw [hm, hn] at he
  obtain ⟨rfl, hr⟩ : r = r' ∧ R m' n' := he
  cases r with
  | ok i =>
    rw [cycle_of_ok system hm, cycle_of_ok system hn]
    exact ⟨rfl, hr⟩
  | error e =>
    rw [cycle_of_error system hm, cycle_of_error system hn]
    exact ⟨rfl, hf e hr⟩

end

end Monitor
end Minicomputer
