import Minicomputer.Proofs.Monitor.Breakpoints
import Minicomputer.Proofs.Monitor.Input

/-!
# Conversations

A machine can be given its input beforehand, or line by line, each time that it waits. The program
cannot tell, unless it looks at the clock.
-/

set_option autoImplicit false

namespace Minicomputer

/-- Runs a machine and answers it: as long as it waits and there is a line, it gets the next line
and is run again. Each of the runs has the limit. Gives the answers that it was not given. -/
def Machine.converse (limit : Nat) : List Answer → Machine Monitor → List Answer × Machine Monitor
  | [], m => ([], (m.runLimited Monitor.system limit).2)
  | x :: answers, m =>
    let n := (m.runLimited Monitor.system limit).2
    if n.status = .waiting then converse limit answers (n.receive x) else (x :: answers, n)

/-- A line with its line feed. -/
def Answer.IsLine (x : Answer) : Prop := x.line.toList.getLast? = some '\n'

/-- The characters of all lines. -/
def Answer.text (answers : List Answer) : List Char := answers.flatMap fun x => x.line.toList

namespace Monitor

open Minicomputer.Machine

variable {lag : Nat} {rest : List Char} {m n : Machine Monitor}

theorem Follows.free (h : Follows lag rest m n) (hm : Free m) : Free n := by
  obtain ⟨_, _, _, rfl, -⟩ := h
  exact ⟨hm.breakpoints, hm.pauseRequested, hm.status⟩

theorem Trails.status (h : Trails lag rest m n) : n.status = m.status := by
  obtain ⟨_, _, _, rfl, -⟩ | ⟨-, _, _, _, -, ⟨_, _, _, rfl, -⟩, rfl⟩ := h <;> rfl

theorem Trails.free (h : Trails lag rest m n) (hm : Free m) : Free n := by
  obtain h | ⟨-, _, _, _, -, h, rfl⟩ := h
  · exact h.free hm
  · have hn := h.free hm
    exact ⟨hn.breakpoints, hn.pauseRequested, hn.status⟩

theorem Trails.input_eq (h : Trails lag rest m n) : m.console.input = n.console.input ++ rest := by
  obtain ⟨_, _, _, rfl, hi, -⟩ | ⟨-, _, _, _, -, ⟨_, _, _, rfl, hi, -⟩, rfl⟩ := h <;> exact hi

/-- What a machine with a part of the input does while the other one runs: it trails it, or it has
begun to wait where the other one went on. -/
inductive Segment (lag : Nat) (rest : List Char) (m n : Machine Monitor) (k : Nat) : Prop where
  | together (trails : Trails lag rest (m.runLimited system k).2 (n.runLimited system k).2)
  | apart {j : Nat} (lt : j < k) (executing : (m.runLimited system j).2.status = .executing)
    (input : (m.runLimited system j).2.console.input ≠ [])
    (waits : Waits lag rest (m.runLimited system j).2 (n.runLimited system k).2)

/-- A machine of which no run asks the time. -/
def Timeless (m : Machine Monitor) : Prop :=
  ∀ k, (m.runLimited system k).2.status = .executing → ¬ (m.runLimited system k).2.Calls .timer

/-- One more cycle of two machines that are together. -/
theorem segment_succ_of_executing {k : Nat} (hm : Free (m.runLimited system k).2)
    (hs : (m.runLimited system k).2.status = .executing)
    (hsystem : (m.runLimited system k).2.system.isSome = true)
    (htime : ¬ (m.runLimited system k).2.Calls .timer)
    (h : Trails lag rest (m.runLimited system k).2 (n.runLimited system k).2) :
    Segment lag rest m n (k + 1) := by
  have hm₁ := congrArg Prod.snd (hm.runLimited_succ hs)
  have hn₁ := congrArg Prod.snd ((h.free hm).runLimited_succ (h.status.trans hs))
  by_cases hb : ∃ call, (m.runLimited system k).2.Calls call ∧ call.isReading = true ∧
      (n.runLimited system k).2.console.input = [] ∧ (m.runLimited system k).2.console.input ≠ []
  · obtain ⟨call, hc, hr, hn, hi⟩ := hb
    refine .apart (Nat.lt_succ_self k) hs hi ?_
    rw [hn₁]
    exact h.waits hsystem hc hr hn
  · refine .together (.inl ?_)
    rw [hm₁, hn₁]
    refine h.cycle htime fun call hc hr => ?_
    by_contra hi
    rw [not_or, not_not] at hi
    exact hb ⟨call, hc, hr, hi.1, hi.2⟩

theorem segment (hm : Free m) (hs : m.status = .executing) (hsystem : m.system.isSome = true)
    (htime : Timeless m) (h : Trails lag rest m n) (k : Nat) : Segment lag rest m n k := by
  induction k with
  | zero =>
    refine .together ?_
    rw [runLimited_zero system hs hm.pauseRequested,
      runLimited_zero system (h.status.trans hs) (h.free hm).pauseRequested]
    exact h
  | succ k ih =>
    cases ih with
    | together trails =>
      by_cases he : (m.runLimited system k).2.status = .executing
      · have hk := Action.isSome_system_runLimited system k hsystem
        exact segment_succ_of_executing (hm.runLimited hs k) he hk (htime k he) trails
      · have hen : (n.runLimited system k).2.status ≠ .executing := trails.status ▸ he
        refine .together ?_
        rw [runLimited_add_of_not_executing system 1 he,
          runLimited_add_of_not_executing system 1 hen]
        exact trails
    | apart lt executing input waits =>
      have hen : (n.runLimited system k).2.status ≠ .executing := by
        rw [waits.status]
        decide
      refine .apart (Nat.lt_succ_of_lt lt) executing input ?_
      rw [runLimited_add_of_not_executing system 1 hen]
      exact waits

theorem input_eq_nil_of_runLimited (hm : m.status.isResumable = true) (limit : Nat)
    (h : (m.runLimited system limit).2.status = .waiting) :
    (m.runLimited system limit).2.console.input = [] := by
  refine runLimited_induction (P := fun _ n => n.status = .waiting → n.console.input = []) system
    (fun _ _ _ hw => ?_) (fun hs _ hw => ?_) limit hm (fun hw => ?_) h
  · rw [status_setStatus] at hw
    cases hw
  · obtain hb | ⟨-, -, hb⟩ := ((cycle system _).2).stopAtBreakpoint_cases <;> rw [hb] at hw ⊢
    · exact input_eq_nil_of_cycle (by rw [hs]; decide) hw
    · rw [status_setStatus] at hw
      cases hw
  · rw [status_setStatus] at hw
    cases hw

/-! ### Whole conversations -/

theorem lined_of_isLine {x : Answer} (h : x.IsLine) : Console.Lined x.line.toList := by
  intro c hc
  rw [h] at hc
  exact (Option.some.inj hc).symm

theorem ne_nil_of_isLine {x : Answer} (h : x.IsLine) : x.line.toList ≠ [] := by
  intro e
  rw [Answer.IsLine, e] at h
  cases h

theorem Timeless.runLimited (h : Timeless m) {j : Nat}
    (hs : (m.runLimited system j).2.status = .executing) : Timeless (m.runLimited system j).2 := by
  intro k
  have hk := h (j + k)
  rw [runLimited_add_of_executing system k hs] at hk
  exact hk

/-- A run that stops within its limit stops there wherever in between it is taken up. -/
theorem runLimited_runLimited {j limit : Nat} (hs : (m.runLimited system j).2.status = .executing)
    (hstop : (m.runLimited system limit).2.status ≠ .executing) :
    ((m.runLimited system j).2.runLimited system limit).2 = (m.runLimited system limit).2 := by
  have h := runLimited_add_of_executing system limit hs
  rw [runLimited_of_le system (Nat.le_add_left limit j) hstop] at h
  exact (congrArg Prod.snd h).symm

theorem converse_setStatus_executing (limit : Nat) (answers : List Answer)
    (h : m.status.isResumable = true) :
    (m.setStatus .executing).converse limit answers = m.converse limit answers := by
  cases answers with
  | nil => rw [converse, converse, runLimited_setStatus_executing system limit h]
  | cons x answers => rw [converse, converse, runLimited_setStatus_executing system limit h]

theorem converse_of_waiting {limit : Nat} (x : Answer) (answers : List Answer)
    (h : (m.runLimited system limit).2.status = .waiting) :
    m.converse limit (x :: answers) =
      (((m.runLimited system limit).2.receive x).setStatus .executing).converse limit answers := by
  have hr : ((m.runLimited system limit).2.receive x).status.isResumable = true := by
    rw [receive_of_waiting x h, status_setStatus]
    rfl
  rw [converse_setStatus_executing limit answers hr, converse]
  exact if_pos h

theorem converse_of_not_waiting {limit : Nat} (answers : List Answer)
    (h : answers ≠ [] → (m.runLimited system limit).2.status ≠ .waiting) :
    m.converse limit answers = (answers, (m.runLimited system limit).2) := by
  cases answers with
  | nil => rfl
  | cons x answers =>
    rw [converse]
    exact if_neg (h (List.cons_ne_nil x answers))

theorem Waits.input_eq (h : Waits lag rest m n) : m.console.input = rest := by
  obtain ⟨_, _, n₀, _, -, hf, hi, -⟩ := h.exists_follows
  have hm := Trails.input_eq (.inl hf)
  rw [hi] at hm
  exact hm

theorem eq_nil_of_text_eq_nil {answers : List Answer} (hlines : ∀ x ∈ answers, x.IsLine)
    (h : Answer.text answers = []) : answers = [] := by
  cases answers with
  | nil => rfl
  | cons x answers =>
    rw [Answer.text, List.flatMap_cons, List.append_eq_nil_iff] at h
    exact absurd h.1 (ne_nil_of_isLine (hlines x List.mem_cons_self))

/-- The last run of a conversation. -/
theorem converse_of_together {limit : Nat} {answers : List Answer}
    (hlines : ∀ x ∈ answers, x.IsLine) (hm : m.status.isResumable = true)
    (hstop : (m.runLimited system limit).2.status ≠ .executing)
    (h : Trails lag (Answer.text answers) (m.runLimited system limit).2
      (n.runLimited system limit).2) :
    ((m.runLimited system limit).2.status = .waiting → answers = []) ∧
      n.converse limit answers = (answers, (n.runLimited system limit).2) ∧
      Follows lag (Answer.text answers) (m.runLimited system limit).2
        (n.runLimited system limit).2 := by
  have hwait : (m.runLimited system limit).2.status = .waiting → answers = [] := by
    intro hw
    have hi := input_eq_nil_of_runLimited hm limit hw
    rw [h.input_eq, List.append_eq_nil_iff] at hi
    exact eq_nil_of_text_eq_nil hlines hi.2
  refine ⟨hwait, converse_of_not_waiting answers fun hne hw => ?_, ?_⟩
  · exact hne (hwait (h.status.symm.trans hw))
  · exact h.resolve_right fun he => hstop he.1

/-- Two machines that run together until the second one waits, and again after each answer. -/
theorem converse_of_trails {limit : Nat} {answers : List Answer}
    (hlines : ∀ x ∈ answers, x.IsLine) (hm : Free m) (hs : m.status = .executing)
    (hsystem : m.system.isSome = true) (htime : Timeless m)
    (hstop : (m.runLimited system limit).2.status ≠ .executing)
    (h : Trails lag (Answer.text answers) m n) :
    ∃ given unread k, n.converse limit answers = (unread, k) ∧ answers = given ++ unread ∧
      Follows (lag + given.length) (Answer.text unread) (m.runLimited system limit).2 k ∧
      ((m.runLimited system limit).2.status = .waiting → unread = []) := by
  have hr : m.status.isResumable = true := congrArg Status.isResumable hs
  induction answers generalizing lag m n with
  | nil =>
    cases segment hm hs hsystem htime h limit with
    | together trails =>
      obtain ⟨hw, hc, hf⟩ := converse_of_together hlines hr hstop trails
      exact ⟨[], [], _, hc, rfl, hf, hw⟩
    | apart _ _ input waits => exact absurd waits.input_eq input
  | cons x answers ih =>
    cases segment hm hs hsystem htime h limit with
    | together trails =>
      obtain ⟨hw, hc, hf⟩ := converse_of_together hlines hr hstop trails
      exact ⟨[], x :: answers, _, hc, rfl, hf, hw⟩
    | @apart j _ executing _ waits =>
      have hx := lined_of_isLine (hlines x List.mem_cons_self)
      have htrails := waits.receive x hx executing
      have hsame := runLimited_runLimited executing hstop
      rw [← hsame] at hstop ⊢
      have hj := Action.isSome_system_runLimited system j hsystem
      obtain ⟨given, unread, k, hc, hsplit, hf, hw⟩ :=
        ih (fun y hy => hlines y (List.mem_cons_of_mem x hy)) (hm.runLimited hs j) executing hj
          (htime.runLimited executing) hstop htrails (congrArg Status.isResumable executing)
      refine ⟨x :: given, unread, k, ?_, congrArg (x :: ·) hsplit, ?_, hw⟩
      · rw [converse_of_waiting x answers waits.status, hc]
      · rw [List.length_cons, Nat.add_comm given.length, ← Nat.add_assoc]
        exact hf

/-! ### Programs -/

theorem timeless_of_lt {limit : Nat} (hstop : (m.runLimited system limit).2.status ≠ .executing)
    (h : ∀ k < limit, (m.runLimited system k).2.status = .executing →
      ¬ (m.runLimited system k).2.Calls .timer) : Timeless m := by
  intro k hs
  obtain hk | hk := Nat.lt_or_ge k limit
  · exact h k hk hs
  · rw [runLimited_of_le system hk hstop] at hs
    exact absurd hs hstop

/-- A new machine with a program. -/
def loaded (p : Program) (seed : UInt64) : Machine Monitor :=
  ((Machine.new (ofSeed seed)).load system p).2

theorem loaded_eq (p : Program) (seed : UInt64) :
    ∃ registers memory debugInfo audience, loaded p seed =
      { Machine.new (ofSeed seed) with registers, memory, debugInfo, audience } := by
  unfold loaded Machine.load
  dsimp only
  split
  · exact ⟨_, _, _, _, rfl⟩
  · split
    · exact ⟨_, _, _, _, rfl⟩
    · exact ⟨_, _, _, _, rfl⟩

/-- Lines that are there from the start. -/
def provideAll (answers : List Answer) (m : Machine Monitor) : Machine Monitor :=
  answers.foldl (fun m x => m.provideInput x.line) m

theorem provideAll_eq (answers : List Answer) (m : Machine Monitor) :
    provideAll answers m =
      { m with console := { m.console with input := m.console.input ++ Answer.text answers } } := by
  unfold provideAll
  induction answers generalizing m with
  | nil =>
    have htext : Answer.text [] = [] := rfl
    rw [List.foldl_nil, htext, List.append_nil]
  | cons x answers ih =>
    have htext : Answer.text (x :: answers) = x.line.toList ++ Answer.text answers := rfl
    rw [List.foldl_cons, ih, htext, ← List.append_assoc]
    rfl

theorem map_generator_of_rel {s t : Option Monitor}
    (h : Option.Rel (fun s t => s.generator = t.generator) s t) :
    s.map (·.generator) = t.map (·.generator) := by
  cases h with
  | none => rfl
  | some h => exact congrArg some h

theorem follows_loaded (p : Program) (seed : UInt64) (answers : List Answer) :
    Follows 0 (Answer.text answers) (provideAll answers (loaded p seed)) (loaded p seed) := by
  obtain ⟨registers, memory, debugInfo, audience, h⟩ := loaded_eq p seed
  rw [provideAll_eq, h]
  exact ⟨[], some (ofSeed seed), audience, rfl, rfl, nofun, .some rfl⟩

theorem free_loaded (p : Program) (seed : UInt64) (answers : List Answer) :
    Free ((provideAll answers (loaded p seed)).setStatus .executing) := by
  obtain ⟨registers, memory, debugInfo, audience, h⟩ := loaded_eq p seed
  rw [provideAll_eq, h, setStatus_eq]
  exact ⟨rfl, rfl, fun _ => rfl⟩

/-- Whether a program is given all lines before it is run, or each of them only when it waits, is
the same to it unless it asks for the time: both end in the same machine, but that the second one
has waited once for each line that it was given and does not have the lines that it did not wait
for. The limit can be the one that no run comes to the end of. -/
theorem converse_loaded (p : Program) (seed : UInt64) {limit : Nat} {answers : List Answer}
    (hlines : ∀ x ∈ answers, x.IsLine)
    (hstop : ((provideAll answers (loaded p seed)).runLimited system limit).2.status ≠ .executing)
    (htime : ∀ k < limit,
      ((provideAll answers (loaded p seed)).runLimited system k).2.status = .executing →
        ¬ ((provideAll answers (loaded p seed)).runLimited system k).2.Calls .timer) :
    let a := ((provideAll answers (loaded p seed)).runLimited system limit).2
    let b := ((loaded p seed).converse limit answers).2
    let unread := ((loaded p seed).converse limit answers).1
    ∃ given, answers = given ++ unread ∧
      b = { a with
        cycles := a.cycles + given.length
        console := { a.console with input := b.console.input }
        system := b.system
        audience := b.audience } ∧
      a.system.map (·.generator) = b.system.map (·.generator) ∧
      a.console.input = b.console.input ++ Answer.text unread ∧
      (a.status = .waiting ↔ b.status = .waiting ∧ unread = []) := by
  dsimp only
  have hready : (loaded p seed).status.isResumable = true := by
    obtain ⟨_, _, _, _, h⟩ := loaded_eq p seed
    rw [h]
    rfl
  have hready' : (provideAll answers (loaded p seed)).status.isResumable = true := by
    rw [provideAll_eq]
    exact hready
  have hsystem :
      ((provideAll answers (loaded p seed)).setStatus .executing).system.isSome = true := by
    obtain ⟨_, _, _, _, h⟩ := loaded_eq p seed
    rw [provideAll_eq, h, setStatus_eq]
    rfl
  have hrun (k : Nat) := runLimited_setStatus_executing system k hready'
  rw [← hrun limit] at hstop
  have htimeless := timeless_of_lt hstop fun k hk => by
    rw [hrun k]
    exact htime k hk
  obtain ⟨given, unread, b, hb, hsplit, hfollows, hwait⟩ :=
    converse_of_trails hlines (free_loaded p seed answers) (status_setStatus _ _) hsystem htimeless
      hstop (.inl ((follows_loaded p seed answers).setStatus .executing))
  rw [converse_setStatus_executing limit answers hready] at hb
  rw [hrun limit] at hfollows hwait
  rw [hb]
  refine ⟨given, hsplit, ?_⟩
  obtain ⟨input, s, audience, rfl, hi, -, hs⟩ := hfollows
  refine ⟨?_, ?_, hi, fun h => ⟨h, hwait h⟩, fun h => h.1⟩
  · rw [Nat.zero_add]
  · exact map_generator_of_rel hs

theorem ofSelector?_of_calls {word data : Word} {c : Byte} {call : SystemCall}
    (hp : m.Presents word data) (hd : Instruction.decode word data = some (.sys c))
    (h : m.Calls call) : SystemCall.ofSelector? c = some call := by
  obtain ⟨c', ⟨word', data', hp', hd'⟩, hsel⟩ := h
  obtain ⟨rfl, rfl⟩ := presents_unique hp hp'
  rw [hd] at hd'
  cases hd'
  exact hsel

/-- A program that reads two characters and ends. -/
def twoReads : Program := .plain [0x00, 0x05, 0x00, 0x05, 0x00, 0x00] [] ""

/-- A line of one character after three milliseconds. -/
def shortAnswer : Answer := ⟨"x\n", 3⟩

theorem not_calls_timer_twoReads {k : Nat} (hk : k < 3) :
    ¬ ((provideAll [shortAnswer] (loaded twoReads 1)).runLimited system k).2.Calls .timer := by
  intro h
  obtain rfl | rfl | rfl : k = 0 ∨ k = 1 ∨ k = 2 := by omega
  · have hp : ((provideAll [shortAnswer] (loaded twoReads 1)).runLimited system 0).2.Presents 5 0 :=
      ⟨by decide +kernel, by decide +kernel⟩
    exact absurd (ofSelector?_of_calls hp (c := 5) (by decide) h) (by decide)
  · have hp : ((provideAll [shortAnswer] (loaded twoReads 1)).runLimited system 1).2.Presents 5 0 :=
      ⟨by decide +kernel, by decide +kernel⟩
    exact absurd (ofSelector?_of_calls hp (c := 5) (by decide) h) (by decide)
  · have hp : ((provideAll [shortAnswer] (loaded twoReads 1)).runLimited system 2).2.Presents 0 0 :=
      ⟨by decide +kernel, by decide +kernel⟩
    exact absurd (ofSelector?_of_calls hp (c := 0) (by decide) h) (by decide)

theorem converse_loaded_twoReads :
    let a := ((provideAll [shortAnswer] (loaded twoReads 1)).runLimited system 3).2
    let b := ((loaded twoReads 1).converse 3 [shortAnswer]).2
    shortAnswer.IsLine ∧ a.status = .finished ∧ b.status = .finished ∧
      b.registers = a.registers ∧ b.cycles = a.cycles + 1 := by
  have hline : shortAnswer.IsLine := by
    unfold Answer.IsLine
    decide
  have hlines : ∀ x ∈ [shortAnswer], x.IsLine := by
    intro x hx
    rw [List.mem_singleton.mp hx]
    exact hline
  have hstatus : ((provideAll [shortAnswer] (loaded twoReads 1)).runLimited system 3).2.status =
      .finished := by decide +kernel
  have hunread : ((loaded twoReads 1).converse 3 [shortAnswer]).1.length = 0 := by decide +kernel
  have h := converse_loaded twoReads 1 hlines (by rw [hstatus]; decide) fun k hk _ =>
    not_calls_timer_twoReads hk
  dsimp only at h ⊢
  generalize ((provideAll [shortAnswer] (loaded twoReads 1)).runLimited system 3).2 = a
    at h hstatus ⊢
  generalize (loaded twoReads 1).converse 3 [shortAnswer] = r at h hunread ⊢
  obtain ⟨given, hsplit, hb, -, -, -⟩ := h
  rw [List.eq_nil_of_length_eq_zero hunread, List.append_nil] at hsplit
  rw [← hsplit] at hb
  refine ⟨hline, hstatus, ?_, ?_, ?_⟩ <;> rw [hb]
  · exact hstatus
  · rfl

end Monitor
end Minicomputer
