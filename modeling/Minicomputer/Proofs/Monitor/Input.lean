import Minicomputer.Proofs.Monitor.Slices

/-!
# Input that comes late

One machine has all of its input from the start; another one follows it with a part of the input,
in whole lines. While the part lasts both read the same. Where it is used up, the call that reads
leaves no trace but the time it took, and is made again once there is a line.
-/

set_option autoImplicit false

namespace Minicomputer

namespace Console

/-- Input that ends with a line feed, if there is any. -/
def Lined (s : List Char) : Prop := ∀ c ∈ s.getLast?, c = '\n'

theorem Lined.of_append_cons {s t : List Char} {x : Char} (h : Lined (s ++ x :: t)) : Lined t := by
  cases t with
  | nil => exact fun c hc => by cases hc
  | cons y t =>
    intro c hc
    refine h c ?_
    rw [List.getLast?_append_cons, List.getLast?_cons_cons]
    exact hc

theorem Lined.exists_eq_append {s : List Char} (h : Lined s) (hs : s ≠ []) :
    ∃ u v, s = u ++ '\n' :: v ∧ '\n' ∉ u := by
  have hl := h (s.getLast hs) (List.getLast?_eq_some_getLast hs)
  have hmem : '\n' ∈ s := hl ▸ List.getLast_mem hs
  obtain ⟨u, v, hsuv, hu⟩ := List.eq_append_cons_of_mem hmem
  exact ⟨u, v, hsuv, hu⟩

/-- What is behind a line feed does not matter to the line in front of it. -/
theorem readLine?_of_eq {c : Console} {u v : List Char} (h : c.input = u ++ '\n' :: v)
    (hu : '\n' ∉ u) :
    c.readLine? = some (String.ofList (u.reverse.dropWhile (· == '\r')).reverse,
      { c with input := v }) := by
  have htake : c.input.takeWhile (· != '\n') = u := by
    rw [h, List.takeWhile_append_of_pos fun x hx => ?_]
    · simp
    · exact bne_iff_ne.mpr fun e => hu (e ▸ hx)
  have hdrop : c.input.drop (u.length + 1) = v := by
    rw [h, ← List.drop_drop, List.drop_left]
    rfl
  have hne : ¬ c.input.isEmpty = true := by
    rw [h]
    simp
  unfold readLine?
  rw [if_neg hne, htake]
  dsimp only
  rw [hdrop]

end Console

theorem RegisterFile.ext_get {f g : RegisterFile} (h : ∀ r, f.get r = g.get r) : f = g := by
  have surjective : ∀ i : Fin 22, ∃ r ∈ Register.all, r.index = i := by decide
  refine RegisterFile.ext (Vector.ext fun i hi => ?_)
  obtain ⟨r, -, hr⟩ := surjective ⟨i, hi⟩
  obtain rfl : r.index.val = i := congrArg Fin.val hr
  exact h r

/-- A line that someone types in, and the time until then. -/
structure Answer where
  line : String
  delay : Nat

/-- Gets a line after some time, and is paused, from where it can be run again. -/
def Machine.receive (x : Answer) (m : Machine Monitor) : Machine Monitor :=
  ((m.provideInput x.line).elapse x.delay).pause

namespace Monitor

open Minicomputer.Machine Minicomputer.Action

/-- The second machine has a part of the input of the first one, in whole lines, and `rest` is what
it has not got. It is ahead in cycles by `lag`; clocks and audiences may differ. -/
def Follows (lag : Nat) (rest : List Char) (m n : Machine Monitor) : Prop :=
  ∃ input system audience,
    n = { m with
      cycles := m.cycles + lag
      console := { m.console with input }
      system
      audience } ∧
    m.console.input = input ++ rest ∧ Console.Lined input ∧
    Option.Rel (fun s t => s.generator = t.generator) m.system system

variable {lag : Nat} {rest : List Char} {m n : Machine Monitor}

theorem Follows.setStatus (h : Follows lag rest m n) (status : Status) :
    Follows lag rest (m.setStatus status) (n.setStatus status) := by
  obtain ⟨input, s, audience, rfl, h⟩ := h
  unfold Machine.setStatus
  dsimp only
  split
  · exact ⟨input, s, audience, rfl, h⟩
  · exact ⟨input, s, _, rfl, h⟩

theorem Follows.fail (h : Follows lag rest m n) (e : Fault) :
    Follows lag rest (m.fail e) (n.fail e) := by
  unfold Machine.fail
  refine Follows.setStatus ?_ _
  obtain ⟨input, s, audience, rfl, h⟩ := h
  exact ⟨input, s, audience, rfl, h⟩

theorem Follows.tick (h : Follows lag rest m n) : Follows lag rest m.tick n.tick := by
  obtain ⟨input, s, audience, rfl, h⟩ := h
  refine ⟨input, s, audience, ?_, h⟩
  unfold Machine.tick
  rw [Nat.add_right_comm]

theorem congruence_follows (lag : Nat) (rest : List Char) :
    Congruence (fun s t => s.generator = t.generator) (Follows lag rest) where
  registers := by rintro m _ ⟨_, _, _, rfl, _⟩; rfl
  memory := by rintro m _ ⟨_, _, _, rfl, _⟩; rfl
  debugInfo := by rintro m _ ⟨_, _, _, rfl, _⟩; rfl
  setRegister := by
    rintro m _ r _ w ⟨input, s, _, rfl, h⟩
    exact ⟨input, s, _, rfl, h⟩
  setTestFlag := by
    rintro m _ value ⟨input, s, _, rfl, h⟩
    exact ⟨input, s, _, rfl, h⟩
  setMemory := by
    rintro m _ memory ⟨input, s, _, rfl, h⟩
    exact ⟨input, s, _, rfl, h⟩
  announce := by
    rintro m _ news ⟨input, s, _, rfl, h⟩
    exact ⟨input, s, _, rfl, h⟩
  print := by
    rintro m _ text ⟨input, s, _, rfl, h⟩
    exact ⟨input, s, _, rfl, h⟩
  note := by
    rintro m _ entry ⟨input, s, _, rfl, h⟩
    exact ⟨input, s, _, rfl, h⟩
  system := by
    rintro m _ ⟨_, _, _, rfl, _, _, hs⟩
    exact hs
  setSystem := by
    rintro m _ s t ⟨input, _, _, rfl, hi, hl, _⟩ hs
    exact ⟨input, t, _, rfl, hi, hl, hs⟩
  generator h := h
  setGenerator _ _ := rfl
  setStatus _ h := h.setStatus _

/-- What both have read. -/
theorem Follows.read {s : Option Monitor} {audience : Audience}
    {console console' : Console} (hc : console.output = m.console.output)
    (hc' : console'.output = m.console.output) (hi : console.input = console'.input ++ rest)
    (hl : Console.Lined console'.input)
    (hs : Option.Rel (fun s t => s.generator = t.generator) m.system s) :
    Follows lag rest { m with console }
      { m with cycles := m.cycles + lag, system := s, audience, console := console' } := by
  refine ⟨console'.input, s, audience, ?_, hi, hl, hs⟩
  obtain ⟨output, input⟩ := console'
  obtain rfl : output = m.console.output := hc'
  rw [← hc]

/-- A part of the input that is not used up is read like the whole. -/
theorem Follows.readAlike (h : Follows lag rest m n)
    (hin : n.console.input ≠ [] ∨ m.console.input = []) : ReadAlike (Follows lag rest) m n := by
  obtain ⟨input, s, audience, rfl, hi, hl, hs⟩ := h
  by_cases hne : input = []
  · have hm : m.console.input = [] := hin.resolve_left (not_not_intro hne)
    have none (c : Console) (hc : c.input = []) : c.readLine? = none ∧ c.readChar? = none := by
      rw [Console.readLine?_eq_none_iff, Console.readChar?_eq_none_iff, Console.hasInput, hc]
      exact ⟨rfl, rfl⟩
    have hn := none { m.console with input } hne
    constructor
    · rw [(none m.console hm).1, hn.1]
      exact .none
    · rw [(none m.console hm).2, hn.2]
      exact .none
  · constructor
    · obtain ⟨u, v, rfl, hu⟩ := hl.exists_eq_append hne
      have hm : m.console.input = u ++ '\n' :: (v ++ rest) := by
        rw [hi, List.append_assoc, List.cons_append]
      rw [Console.readLine?_of_eq hm hu, Console.readLine?_of_eq rfl hu]
      exact .some ⟨rfl, .read rfl rfl rfl hl.of_append_cons hs⟩
    · obtain ⟨x, v, rfl⟩ := List.exists_cons_of_ne_nil hne
      have hm : m.console.readChar? = some (x, { m.console with input := v ++ rest }) := by
        unfold Console.readChar?
        rw [hi]
        rfl
      rw [hm]
      exact .some ⟨rfl, .read rfl rfl rfl (Console.Lined.of_append_cons (s := []) hl) hs⟩

/-! ### Calls that find no input -/

section

variable {c : Byte} {call : SystemCall} {s : Monitor}

theorem run_serve_of_no_input (clock : Nat) (hr : call.isReading = true)
    (hin : m.console.input = []) : (serve clock call).run m = (.ok .needsInput, m) := by
  have hi : m.console.hasInput = false := by
    rw [Console.hasInput, hin]
    rfl
  have hline := m.console.readLine?_eq_none_iff.mpr hi
  cases call with
  | rint => exact run_answerLine_of_none _ hline
  | rstr => exact run_answerLine_of_none _ hline
  | rchr => exact run_rchr_of_none clock (m.console.readChar?_eq_none_iff.mpr hi)
  | _ => cases hr

theorem call_of_no_input (hc : SystemCall.ofSelector? c = some call) (hr : call.isReading = true)
    (hin : m.console.input = []) : Monitor.call c s m = ((.ok .needsInput, s), m) := by
  have hne : call ≠ .rnd := by
    rintro rfl
    cases hr
  have hattend : (attend c s).run m = (.ok (.needsInput, s.generator), m) := by
    rw [attend_of_ne hc hne, run_bind_of_ok (run_serve_of_no_input s.clock hr hin)]
    rfl
  rw [call_eq, hattend]
  rfl

theorem run_systemCall_of_no_input (hs : m.system = some s)
    (hc : SystemCall.ofSelector? c = some call) (hr : call.isReading = true)
    (hin : m.console.input = []) : (systemCall system c).run m =
      (.ok (), (m.setRegister .pc (m.pc - 2)).setStatus .waiting) := by
  have hcall : system.call c s { m with system := none } =
      ((.ok .needsInput, s), { m with system := none }) := call_of_no_input hc hr hin
  rw [run_systemCall_of_some system c hs, hcall]
  unfold settle
  dsimp only
  rw [← hs]
  rfl

theorem set_pc_fetched (m : Machine Monitor) (word data : Word) :
    (((m.fetched word data).registers.set .pc (m.pc + 2)).set .pc (m.pc + 2 - 2)) =
      (m.fetched word data).registers := by
  refine RegisterFile.ext_get fun r => ?_
  rw [UInt16.add_sub_cancel, RegisterFile.get_set, RegisterFile.get_set]
  split
  · next h =>
    subst h
    exact ((RegisterFile.get_set_of_ne _ _ (by decide)).trans
      (RegisterFile.get_set_of_ne _ _ (by decide))).symm
  · rfl

/-- A call that finds no input leaves the machine in front of it, with what the cycle fetched. -/
theorem cycle_of_no_input {word data : Word} (hs : m.system = some s) (hp : m.Presents word data)
    (hd : Instruction.decode word data = some (.sys c))
    (hc : SystemCall.ofSelector? c = some call) (hr : call.isReading = true)
    (hin : m.console.input = []) :
    ∃ audience, (m.cycle system).2 = { m with
      registers := (m.fetched word data).registers
      cycles := m.cycles + 1
      status := .waiting
      audience } := by
  have hcall := run_systemCall_of_no_input (m := m.poised word data (.sys c)) hs hc hr hin
  have hrun := run_fetchAndExecute_of_some system hp hd
  change _ = conclude word (.sys c) ((systemCall system c).run _) at hrun
  have hpc : (m.poised word data (.sys c)).pc = m.pc + 2 := RegisterFile.get_set_self _ _ _
  have hset := setStatus_eq ((m.poised word data (.sys c)).setRegister .pc (m.pc + 2 - 2)) .waiting
  generalize (((m.poised word data (.sys c)).setRegister .pc (m.pc + 2 - 2)).setStatus
    .waiting).audience = audience at hset
  rw [hcall, hpc, hset] at hrun
  refine ⟨audience.announce [.afterExecution word], ?_⟩
  rw [cycle_of_ok system hrun, ← set_pc_fetched]
  rfl

end

/-! ### Calls that are made again -/

/-- What the second machine is in front of a call made again: it follows, but has fetched. -/
def Trails (lag : Nat) (rest : List Char) (m n : Machine Monitor) : Prop :=
  Follows lag rest m n ∨ m.status = .executing ∧ ∃ word data n₀, m.Presents word data ∧
    Follows lag rest m n₀ ∧ n = { n₀ with registers := (n₀.fetched word data).registers }

theorem Follows.congr_audience (h : Follows lag rest m n) (audience : Audience) :
    Follows lag rest m { n with audience } := by
  obtain ⟨input, s, _, rfl, h⟩ := h
  exact ⟨input, s, audience, rfl, h⟩

/-- To fetch the same words again changes nothing that counts. -/
theorem fetched_fetched (m : Machine Monitor) (word data : Word) :
    ∃ audience, { m with registers := (m.fetched word data).registers }.fetched word data =
      { m.fetched word data with audience } := by
  have hregisters : (((m.registers.set .ir word).set .dr data).set .ir word).set .dr data =
      (m.registers.set .ir word).set .dr data := by
    refine RegisterFile.ext_get fun r => ?_
    simp only [RegisterFile.get_set]
    split
    · rfl
    · split <;> rfl
  generalize hf : { m with registers := (m.fetched word data).registers }.fetched word data = f
  refine ⟨f.audience, ?_⟩
  have heq : f = { m.fetched word data with
      registers := (((m.registers.set .ir word).set .dr data).set .ir word).set .dr data
      audience := f.audience } := by
    subst hf
    rfl
  rw [hregisters] at heq
  exact heq

theorem pc_fetched (m : Machine Monitor) (word data : Word) : (m.fetched word data).pc = m.pc :=
  (RegisterFile.get_set_of_ne _ _ (by decide)).trans (RegisterFile.get_set_of_ne _ _ (by decide))

theorem presents_fetched {word data : Word} (h : m.Presents word data) :
    Presents { m with registers := (m.fetched word data).registers } word data := by
  unfold Presents dataWord at h ⊢
  rw [← pc_fetched m word data] at h
  exact h

theorem Follows.isSome_system (h : Follows lag rest m n) (hm : m.system.isSome = true) :
    n.system.isSome = true := by
  obtain ⟨_, s, _, rfl, -, -, hs⟩ := h
  generalize m.system = t at hm hs
  cases hs with
  | none => exact hm
  | some _ => rfl

theorem Trails.fetching (h : Trails lag rest m n) : Fetching (Follows lag rest) m n := by
  obtain h | ⟨-, word, data, n₀, hp, h, rfl⟩ := h
  · exact .inl h
  · have hR := (congruence_follows lag rest).toCongruence
    have hpc : m.pc = (n₀.fetched word data).pc :=
      (congrArg RegisterFile.pc (hR.registers h)).trans (pc_fetched n₀ word data).symm
    have hn := presents_fetched ((presents_of_related hR h).mp hp)
    refine .inr ⟨hpc, word, data, hp, hn, ?_⟩
    obtain ⟨audience, hf⟩ := fetched_fetched n₀ word data
    rw [hf]
    exact (related_fetched hR word data h).congr_audience audience

/-- A cycle that does not find less input than the machine that is followed. -/
theorem Trails.cycle (h : Trails lag rest m n) (htimer : ¬ m.Calls .timer)
    (hin : ∀ call, m.Calls call → call.isReading = true →
      n.console.input ≠ [] ∨ m.console.input = []) :
    Follows lag rest (m.cycle system).2 (n.cycle system).2 := by
  refine (agree_cycle (congruence_follows lag rest) Follows.tick (fun e h => h.fail e) h.fetching
    (fun hc => absurd hc htimer) fun call hc hr m' n' h' hm hn => ?_).2
  refine h'.readAlike ?_
  rw [hm, hn]
  exact hin call hc hr

theorem receive_of_waiting (x : Answer) (h : m.status = .waiting) :
    m.receive x = ((m.provideInput x.line).elapse x.delay).setStatus .ready := by
  have hs : ((m.provideInput x.line).elapse x.delay).status = .waiting := h
  unfold receive pause
  rw [hs]

/-- What comes of an answer once the machine is run again. -/
theorem receive_eq (x : Answer) (h : m.status = .waiting) :
    ∃ audience, (m.receive x).setStatus .executing = { m with
      status := .executing
      console := m.console.provide x.line
      system := m.system.map fun s => { s with clock := s.clock + x.delay }
      audience } := by
  refine ⟨((m.receive x).setStatus .executing).audience, ?_⟩
  rw [receive_of_waiting x h, setStatus_eq, setStatus_eq]
  rfl

theorem Follows.answered (x : Answer) (hx : Console.Lined x.line.toList)
    (h : Follows lag (x.line.toList ++ rest) m n) (hm : m.status = .executing)
    (hn : n.console.input = []) (audience : Audience) :
    Follows (lag + 1) rest m { n with
      cycles := n.cycles + 1
      status := .executing
      console := n.console.provide x.line
      system := n.system.map fun s => { s with clock := s.clock + x.delay }
      audience } := by
  obtain ⟨input, s, _, rfl, hi, -, hs⟩ := h
  obtain rfl : input = [] := hn
  refine ⟨x.line.toList, s.map fun s => { s with clock := s.clock + x.delay }, audience, ?_, hi, hx,
    ?_⟩
  · rw [← hm]
    rfl
  · generalize m.system = t at hs ⊢
    cases hs with
    | none => exact .none
    | some h => exact .some h

/-- A machine that follows and has begun to wait. -/
structure Waits (lag : Nat) (rest : List Char) (m n : Machine Monitor) : Prop where
  status : n.status = .waiting
  exists_follows : ∃ word data n₀ audience, m.Presents word data ∧ Follows lag rest m n₀ ∧
    n₀.console.input = [] ∧ n = { n₀ with
      registers := (n₀.fetched word data).registers
      cycles := n₀.cycles + 1
      status := .waiting
      audience }

/-- A call that finds no input has no other effect than to wait. -/
theorem Trails.waits (h : Trails lag rest m n) (hs : m.system.isSome = true) {call : SystemCall}
    (hc : m.Calls call) (hr : call.isReading = true) (hn : n.console.input = []) :
    Waits lag rest m (n.cycle system).2 := by
  obtain ⟨c, ⟨word, data, hp, hd⟩, hsel⟩ := hc
  have hR := (congruence_follows lag rest).toCongruence
  obtain h | ⟨-, word', data', n₀, hp', h, rfl⟩ := h
  · obtain ⟨t, ht⟩ := Option.isSome_iff_exists.mp (h.isSome_system hs)
    obtain ⟨audience, hk⟩ :=
      cycle_of_no_input ht ((presents_of_related hR h).mp hp) hd hsel hr hn
    exact ⟨by rw [hk], word, data, n, audience, hp, h, hn, hk⟩
  · obtain ⟨rfl, rfl⟩ := presents_unique hp hp'
    obtain ⟨t, ht⟩ := Option.isSome_iff_exists.mp (h.isSome_system hs)
    obtain ⟨audience, hk⟩ := cycle_of_no_input
      (m := { n₀ with registers := (n₀.fetched word data).registers }) ht
      (presents_fetched ((presents_of_related hR h).mp hp)) hd hsel hr hn
    obtain ⟨_, hf⟩ := fetched_fetched n₀ word data
    rw [hf] at hk
    exact ⟨by rw [hk], word, data, n₀, audience, hp, h, hn, hk⟩

/-- With an answer the call is made again, one cycle later. -/
theorem Waits.receive (x : Answer) (hx : Console.Lined x.line.toList) (hm : m.status = .executing)
    (h : Waits lag (x.line.toList ++ rest) m n) :
    Trails (lag + 1) rest m ((n.receive x).setStatus .executing) := by
  obtain ⟨hs, word, data, n₀, audience, hp, h, hn₀, hn⟩ := h
  obtain ⟨audience', hr⟩ := receive_eq x hs
  rw [hr]
  refine .inr ⟨hm, word, data, _, hp, h.answered x hx hm hn₀ audience', ?_⟩
  rw [hn]
  rfl

/-! ### Machines that wait -/

/-- The results of an action, whatever the machine is, have the property. -/
def Yields {σ α : Type} (P : α → Prop) (x : Action σ α) : Prop :=
  ∀ m a n, x.run m = (.ok a, n) → P a

section

variable {σ α β : Type} {P : α → Prop} {Q : β → Prop}

theorem yields_pure {a : α} (h : P a) : Yields P (pure a : Action σ α) := by
  rintro m _ n he
  cases he
  exact h

theorem yields_throw (e : Fault) : Yields P (throw e : Action σ α) := by
  rintro m _ n he
  cases he

theorem Yields.bind {x : Action σ β} {f : β → Action σ α} (hx : Yields Q x)
    (h : ∀ b, Q b → Yields P (f b)) : Yields P (x >>= f) := by
  intro m a n he
  rcases hr : x.run m with ⟨e | b, k⟩
  · rw [run_bind_of_error hr] at he
    cases he
  · rw [run_bind_of_ok hr] at he
    exact h b (hx m b k hr) k a n he

theorem yields_bind {x : Action σ β} {f : β → Action σ α} (h : ∀ b, Yields P (f b)) :
    Yields P (x >>= f) :=
  Yields.bind (Q := fun _ => True) (fun _ _ _ _ => trivial) fun b _ => h b

end

theorem yields_answer {σ : Type} (w : Word) : Yields (· ≠ .needsInput) (answer (σ := σ) w) :=
  yields_bind fun _ => yields_pure nofun

/-- Only calls that read ask for input. -/
theorem yields_serve {σ : Type} (clock : Nat) {call : SystemCall} (h : call.isReading = false) :
    Yields (· ≠ .needsInput) (serve (σ := σ) clock call) := by
  cases call with
  | rint | rstr | rchr => cases h
  | exit | sleep => exact yields_pure nofun
  | wint | wchr => exact yields_bind fun _ => yields_bind fun _ => yields_pure nofun
  | wstr => exact yields_bind fun _ => yields_bind fun _ => yields_bind fun _ => yields_pure nofun
  | printf =>
    exact yields_bind fun _ => yields_bind fun _ => yields_bind fun _ => yields_bind fun _ =>
      yields_pure nofun
  | atoi => exact yields_bind fun _ => yields_bind fun _ => yields_answer _
  | joystick => exact yields_bind fun _ => yields_answer _
  | memcpy =>
    exact yields_bind fun _ => yields_bind fun _ => yields_bind fun _ => yields_bind fun _ =>
      yields_pure nofun
  | error =>
    exact yields_bind fun _ => yields_bind fun _ => yields_bind fun _ => yields_throw _
  | _ => exact yields_answer _

theorem input_eq_nil_of_answerLine {k : String → Action Monitor Reply}
    (hk : ∀ line, Yields (· ≠ .needsInput) (k line))
    (h : (answerLine k).run m = (.ok .needsInput, n)) : n.console.input = [] := by
  cases hl : m.console.readLine? with
  | none =>
    rw [run_answerLine_of_none k hl] at h
    cases h
    have hi := m.console.readLine?_eq_none_iff.mp hl
    rw [Console.hasInput, Bool.not_eq_false', List.isEmpty_iff] at hi
    exact hi
  | some p =>
    obtain ⟨line, console⟩ := p
    rw [run_answerLine_of_some k hl] at h
    exact absurd rfl (hk line _ _ _ h)

theorem input_eq_nil_of_serve {clock : Nat} {call : SystemCall}
    (h : (serve clock call).run m = (.ok .needsInput, n)) : n.console.input = [] := by
  cases hr : call.isReading with
  | false => exact absurd rfl (yields_serve clock hr _ _ _ h)
  | true =>
    cases call with
    | rint => exact input_eq_nil_of_answerLine (fun _ => yields_answer _) h
    | rstr =>
      refine input_eq_nil_of_answerLine (fun line => ?_) h
      exact yields_bind fun _ => yields_bind fun _ => yields_bind fun _ => yields_answer _
    | rchr =>
      cases hl : m.console.readChar? with
      | none =>
        rw [run_rchr_of_none clock hl] at h
        cases h
        have hi := m.console.readChar?_eq_none_iff.mp hl
        rw [Console.hasInput, Bool.not_eq_false', List.isEmpty_iff] at hi
        exact hi
      | some p =>
        obtain ⟨x, console⟩ := p
        rw [run_rchr_of_some clock hl] at h
        exact absurd rfl (yields_answer _ _ _ _ h)
    | _ => cases hr

theorem input_eq_nil_of_attend {c : Byte} {s : Monitor} {g : Generator}
    (h : (attend c s).run m = (.ok (.needsInput, g), n)) : n.console.input = [] := by
  obtain ⟨e, ha⟩ | ha | ⟨call, -, ha⟩ := attend_cases (σ := Monitor) c s <;> rw [ha] at h
  · cases h
  · have hy : Yields (σ := Monitor) (fun p => p.1 ≠ .needsInput) (random s.generator) :=
      yields_bind fun _ => yields_bind fun _ => (yields_answer _).bind fun _ h => yields_pure h
    exact absurd rfl (hy _ _ _ h)
  · rcases hs : (serve s.clock call).run m with ⟨e | reply, k⟩
    · rw [run_bind_of_error hs] at h
      cases h
    · rw [run_bind_of_ok hs] at h
      cases h
      exact input_eq_nil_of_serve hs

theorem stable_not_waiting : Stable fun m : Machine Monitor => m.status ≠ .waiting where
  setRegister _ _ h := h
  setTestFlag _ h := h
  setMemory _ h := h
  announce _ h := h
  print _ h := h
  note _ h := h

theorem input_eq_nil_of_systemCall (c : Byte) (hm : m.status ≠ .waiting)
    (h : ((systemCall system c).run m).2.status = .waiting) :
    ((systemCall system c).run m).2.console.input = [] := by
  cases hs : m.system with
  | none =>
    rw [run_systemCall_of_none system c hs] at h
    exact absurd h hm
  | some s =>
    have hstatus : ((attend c s).run { m with system := none }).2.status ≠ .waiting :=
      (agree_attend (n := { m with system := none }) stable_not_waiting.congruence rfl
        (fun _ => rfl) ⟨rfl, hm⟩ fun _ _ _ => .of_eq rfl fun _ => ⟨rfl, hm⟩).2.2
    rw [run_systemCall_eq c hs] at h ⊢
    rcases ha : (attend c s).run { m with system := none } with ⟨e | ⟨reply, g⟩, k⟩
    · rw [ha] at h hstatus
      exact absurd h hstatus
    · rw [ha] at h hstatus
      cases reply with
      | proceed => exact absurd h hstatus
      | exit =>
        have hf : (settle (answered s (.ok (.exit, g), k))).2.status = .finished :=
          status_setStatus _ _
        rw [hf] at h
        cases h
      | needsInput =>
        have hi : k.console.input = [] := input_eq_nil_of_attend ha
        unfold answered settle
        dsimp only
        rw [setStatus_eq]
        exact hi

/-- A machine that begins to wait has no input. -/
theorem input_eq_nil_of_cycle (hm : m.status ≠ .waiting)
    (h : (m.cycle system).2.status = .waiting) : (m.cycle system).2.console.input = [] := by
  obtain ⟨i, n, hn, hc⟩ | ⟨e, n, -, hc⟩ := Action.cycle_cases (m := m)
    (Q := fun n => n.status = .waiting → n.console.input = []) system stable_not_waiting
    (fun hn hw => absurd hw hn) (fun _ h => h) (fun c hn => input_eq_nil_of_systemCall c hn) hm
  · rw [hc] at h ⊢
    exact hn h
  · rw [hc] at h
    have hs : (n.fail e).status = .permanentError := status_setStatus _ _
    rw [show (n.fail e).status = .waiting from h] at hs
    cases hs

end Monitor
end Minicomputer
