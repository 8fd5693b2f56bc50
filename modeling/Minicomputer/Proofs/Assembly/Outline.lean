import Mathlib
import Minicomputer.Assembly.Basic

/-!
# The outline of a source

The lines of a source as labels and elements, in the order in which they stand there. A plan enters
them one at a time, as a draft does, so that what a draft holds is found by induction on the
outline.
-/

set_option autoImplicit false

namespace Minicomputer.Assembly

/-- A line of the text segment without its labels. -/
structure TextLine where
  first : Token
  operands : List Token
  /-- How many debug strings there are before it. -/
  debugStrings : Nat

namespace TextLine

def operation (l : TextLine) : Operation := (Draft.operation l.debugStrings l.first l.operands).1

def complaints (l : TextLine) : List Diagnostic :=
  (Draft.operation l.debugStrings l.first l.operands).2

/-- How many debug strings there are after it. -/
def debugStringsAfter (l : TextLine) : Nat :=
  match l.operation with
  | .debug .. => l.debugStrings + 1
  | _ => l.debugStrings

end TextLine

/-- The statement of a note, from the token of its name. -/
def noteStatement (name : Token) (operands : List Token) : Statement :=
  let word := name.text.toLower
  let (operation, complaints) :=
    match Reading.note? word with
    | some r =>
      let (note, complaints) := Reading.all name operands r
      (Operation.note note, complaints)
    | none => (.invalid, [⟨name, .unknownNote word⟩])
  ⟨name, operation, complaints⟩

/-- What stands in a source. -/
inductive Entry where
  | label (t : Token)
  | note (name : Token) (operands : List Token)
  | statement (l : TextLine)
  | datum (e : Datum)

/-- What the lines before a line say about it. -/
structure Context where
  segment : Segment := .text
  debugStrings : Nat := 0
  graphics : List (List Byte) := []

variable (images : String → Except FileError (List Byte))

/-- The entry of a line with an element, and what it says about the lines after it. -/
def outlineElement (c : Context) (first : Token) (others : List Token) : Entry × Context :=
  match c.segment with
  | .text =>
    let l : TextLine := ⟨first, others, c.debugStrings⟩
    (.statement l, { c with debugStrings := l.debugStringsAfter })
  | .data =>
    let (value, graphics, complaints) := Draft.value images c.graphics first others
    (.datum ⟨first, value, complaints⟩, { c with graphics })

/-- The entries of a line, and what it says about the lines after it. -/
def outlineLine (c : Context) (line : List Token) : List Entry × Context :=
  match segment? line with
  | some segment => ([], { c with segment })
  | none =>
    let labels := (line.takeWhile (·.kind = .label)).map Entry.label
    match line.dropWhile (·.kind = .label) with
    | [] => (labels, c)
    | first :: others =>
      match directive? .at (first :: others), others with
      | some _, name :: operands => (labels ++ [.note name operands], c)
      | _, _ =>
        let (element, c) := outlineElement images c first others
        (labels ++ [element], c)

/-- All that a line can be: a switch of segments, or labels with nothing, a note or an element behind
them. -/
theorem outlineLine_cases (c : Context) (line : List Token) :
    let labels := (line.takeWhile (·.kind = .label)).map Entry.label
    (∃ segment, segment? line = some segment ∧
        outlineLine images c line = ([], { c with segment })) ∨
      outlineLine images c line = (labels, c) ∨
      (∃ name operands, outlineLine images c line = (labels ++ [.note name operands], c)) ∨
      ∃ first others, outlineLine images c line =
        (labels ++ [(outlineElement images c first others).1],
          (outlineElement images c first others).2) := by
  intro labels
  unfold outlineLine
  cases segment? line with
  | some segment => exact .inl ⟨segment, rfl, rfl⟩
  | none =>
    refine .inr ?_
    dsimp only
    rcases line.dropWhile _ with _ | ⟨first, others⟩
    · exact .inl rfl
    dsimp only
    cases directive? .at (first :: others) with
    | none => exact .inr (.inr ⟨first, others, rfl⟩)
    | some directive =>
      cases others with
      | nil => exact .inr (.inr ⟨first, [], rfl⟩)
      | cons name operands => exact .inr (.inl ⟨name, operands, rfl⟩)

def outline (c : Context) : List (List Token) → List Entry
  | [] => []
  | line :: rest => (outlineLine images c line).1 ++ outline (outlineLine images c line).2 rest

/-- The entries of a source. -/
def entries (settings : Settings) (source : String) : List Entry :=
  outline settings.images {} (lines (Token.scan source settings.commentLeader))

/-- The part of a draft that the layout looks at. -/
structure Plan where
  statements : List Statement := []
  data : List Datum := []
  labels : LabelTable := .builtIn
  /-- Labels that wait for an element. -/
  held : List Token := []

namespace Plan

def enter (p : Plan) : Entry → Plan
  | .label t => { p with held := p.held ++ [t] }
  | .note name operands => { p with statements := p.statements ++ [noteStatement name operands] }
  | .statement l =>
    let (table, duplicates) := Draft.bind p.labels (.instruction p.statements.length) p.held
    { p with
      statements := p.statements ++ [⟨l.first, l.operation, duplicates ++ l.complaints⟩]
      labels := table
      held := [] }
  | .datum e =>
    let (table, duplicates) := Draft.bind p.labels (.data p.data.length) p.held
    { p with
      data := p.data ++ [⟨e.anchor, e.value, duplicates ++ e.diagnostics⟩]
      labels := table
      held := [] }

/-- Binds the labels that are left. -/
def close (p : Plan) : Plan :=
  match p.held.getLast? with
  | none => p
  | some last =>
    let (table, duplicates) := Draft.bind p.labels (.data p.data.length) p.held
    { p with labels := table, held := [], data := p.data ++ [⟨last, .empty, duplicates⟩] }

end Plan

namespace Draft

variable {images : String → Except FileError (List Byte)}

def plan (d : Draft) : Plan := ⟨d.statements.toList, d.data.toList, d.labels, d.held⟩

def context (d : Draft) : Context := ⟨d.segment, d.debugStrings, d.graphics⟩

theorem enter_labels (p : Plan) (ts : List Token) :
    (ts.map Entry.label).foldl Plan.enter p = { p with held := p.held ++ ts } := by
  induction ts generalizing p with
  | nil => simp
  | cons t ts ih => simp [ih, Plan.enter]

theorem plan_addNote (d : Draft) (held : List Token) (name : Token) (operands : List Token) :
    ({ d with held }.addNote name operands).plan =
      Plan.enter { d.plan with held } (.note name operands) := by
  simp only [addNote, Plan.enter, noteStatement, plan]
  cases Reading.note? name.text.toLower <;> simp

/-- An element takes the labels that wait for it. -/
theorem outlineElement_eq (d : Draft) (held : List Token) (first : Token) (others : List Token)
    {e : Draft} (he : e = match d.segment with
      | .text => { d with held := [] }.addStatement held first others
      | .data => { d with held := [] }.addDatum images held first others) :
    e.plan = Plan.enter { d.plan with held } (outlineElement images d.context first others).1 ∧
      e.context = (outlineElement images d.context first others).2 := by
  subst he
  cases hs : d.segment with
  | text =>
    constructor
    · simp [outlineElement, context, hs, addStatement, plan, Plan.enter, TextLine.operation,
        TextLine.complaints]
    · simp only [outlineElement, context, hs]
      rfl
  | data => simp [outlineElement, context, hs, addDatum, plan, Plan.enter]

/-- A draft takes in a line as its plan enters the entries of the line. -/
theorem outlineLine_eq (d : Draft) (line : List Token) :
    (addLine images d line).plan = (outlineLine images d.context line).1.foldl Plan.enter d.plan ∧
      (addLine images d line).context = (outlineLine images d.context line).2 := by
  unfold addLine outlineLine
  cases segment? line with
  | some segment => exact ⟨rfl, rfl⟩
  | none =>
    dsimp only
    generalize line.dropWhile _ = rest
    rcases rest with _ | ⟨first, others⟩
    · simp [enter_labels, plan, context]
    dsimp only
    cases directive? .at (first :: others) with
    | none =>
      simp only [List.foldl_append, enter_labels, List.foldl_cons, List.foldl_nil]
      exact outlineElement_eq d _ first others rfl
    | some directive =>
      cases others with
      | nil =>
        simp only [List.foldl_append, enter_labels, List.foldl_cons, List.foldl_nil]
        exact outlineElement_eq d _ first [] rfl
      | cons name operands =>
        simp only [List.foldl_append, enter_labels, List.foldl_cons, List.foldl_nil]
        exact ⟨plan_addNote d _ name operands, rfl⟩

theorem plan_foldl_addLine (d : Draft) (ls : List (List Token)) :
    (ls.foldl (addLine images) d).plan = (outline images d.context ls).foldl Plan.enter d.plan := by
  induction ls generalizing d with
  | nil => rfl
  | cons line ls ih =>
    obtain ⟨hp, hc⟩ := outlineLine_eq d line
    rw [List.foldl_cons, ih, hp, hc, outline, List.foldl_append]

theorem plan_close (d : Draft) : d.close.plan = d.plan.close := by
  unfold close Plan.close
  cases h : d.held.getLast? with
  | none => simp [plan, h]
  | some last => simp [plan, h]

end Draft

/-- The plan of a draft comes of the outline alone. -/
theorem draft_plan (settings : Settings) (source : String) :
    (draft settings source).plan = ((entries settings source).foldl Plan.enter {}).close := by
  rw [draft, Draft.ofTokens, Draft.plan_close, Draft.plan_foldl_addLine]
  rfl

end Minicomputer.Assembly
