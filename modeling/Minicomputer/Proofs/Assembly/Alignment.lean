import Minicomputer.Proofs.Assembly.Code
import Minicomputer.Proofs.Assembly.Notes
import Minicomputer.Proofs.Assembly.Vocabulary

/-!
# Notes for debugging, byte by byte

The lines and variables that a program is debugged with are gathered in a pass of their own over the
statements. It keeps step with the code: each statement says of as many bytes as it takes where they
come from and what is known there.
-/

set_option autoImplicit false

namespace Minicomputer.Assembly

open Reading

/-! ### The pass over the entries -/

namespace Scope

/-- What an entry changes in a scope. -/
def enter (s : Scope) : Entry → Scope
  | .note name operands => s.pass (noteStatement name operands)
  | .statement l => s.pass ⟨l.first, l.operation, []⟩
  | _ => s

theorem foldl_enter (s : Scope) (p : Plan) (es : List Entry) :
    (es.foldl Plan.enter p).statements.foldl pass s =
      es.foldl enter (p.statements.foldl pass s) := by
  induction es generalizing p with
  | nil => rfl
  | cons e es ih =>
    rw [List.foldl_cons, List.foldl_cons, ih]
    congr 1
    cases e with
    | label | datum => rfl
    | note | statement => exact List.foldl_append

theorem ofStatements_draft (settings : Settings) (source : String) :
    ofStatements (draft settings source).statements.toList =
      (entries settings source).foldl enter {} := by
  have hs := statements_of_draft settings source
  change (draft settings source).plan.statements.foldl pass {} = _
  rw [hs, foldl_enter]
  rfl

/-- What is said of bytes of code is not taken back. -/
structure Grows (s t : Scope) : Prop where
  assemblyLines : s.assemblyLines.toList <+: t.assemblyLines.toList
  sourceLines : s.sourceLines.toList <+: t.sourceLines.toList
  locals : s.locals.toList <+: t.locals.toList

theorem Grows.refl (s : Scope) : s.Grows s :=
  ⟨List.prefix_refl _, List.prefix_refl _, List.prefix_refl _⟩

theorem Grows.trans {s t u : Scope} (h : s.Grows t) (h' : t.Grows u) : s.Grows u :=
  ⟨h.assemblyLines.trans h'.assemblyLines, h.sourceLines.trans h'.sourceLines,
    h.locals.trans h'.locals⟩

theorem grows_note (s : Scope) (n : Note) : s.Grows (s.note n) := by
  cases n <;> constructor <;> exact List.prefix_refl _

theorem grows_cover (s : Scope) (line size : Nat) : s.Grows (s.cover line size) := by
  constructor <;> simp [cover]

theorem grows_pass (s : Scope) (statement : Statement) : s.Grows (s.pass statement) := by
  unfold pass
  split
  · exact grows_note s _
  · exact grows_cover s _ _

theorem grows_foldl (s : Scope) (es : List Entry) : s.Grows (es.foldl enter s) := by
  induction es generalizing s with
  | nil => exact Grows.refl s
  | cons e es ih =>
    refine Grows.trans ?_ (ih (s.enter e))
    cases e with
    | label | datum => exact Grows.refl s
    | note | statement => exact grows_pass s _

/-- As much is said as there are bytes of code. -/
structure Sized (s : Scope) (n : Nat) : Prop where
  assemblyLines : s.assemblyLines.size = n
  sourceLines : s.sourceLines.size = n
  locals : s.locals.size = n

theorem sized_empty : Sized {} 0 := ⟨rfl, rfl, rfl⟩

theorem Sized.cover {s : Scope} {n : Nat} (h : s.Sized n) (line size : Nat) :
    (s.cover line size).Sized (n + size) := by
  obtain ⟨ha, hs, hl⟩ := h
  constructor <;>
    simp only [Scope.cover, ← Array.length_toList, Array.toList_appendList, List.length_append,
      List.length_replicate] at * <;>
    omega

theorem sized_note {s : Scope} {n : Nat} (h : s.Sized n) (note : Note) : (s.note note).Sized n := by
  obtain ⟨ha, hs, hl⟩ := h
  cases note <;> exact ⟨ha, hs, hl⟩

end Scope

/-- A line of the text segment takes the bytes that are set aside for it. -/
structure TextLine.Plain (labels : Addresses) (l : TextLine) : Prop where
  /-- It makes an instruction. -/
  stands : Stands l.debugStrings l.first l.operands l.operation
  length : (l.operation.encode labels).length = l.operation.size

theorem Derives.ne_note {n : Nat} {m : Mnemonic} {ts : List Token} {o : Operation}
    (h : Derives n m ts o) (note : Note) : o ≠ .note note := by
  rintro rfl
  cases h

/-- An entry that there is nothing to complain about. -/
def Entry.Understood (labels : Addresses) : Entry → Prop
  | .statement l => l.Plain labels
  | .note name operands => ∃ n, Entry.note? (.note name operands) = some n ∧
      Says name.text.toLower operands n
  | _ => True

theorem Scope.enter_note {s : Scope} {name : Token} {operands : List Token} {n : Note}
    (h : Entry.note? (.note name operands) = some n) :
    s.enter (.note name operands) = s.note n := by
  unfold Entry.note? at h
  dsimp only at h
  split at h
  · next ho =>
    cases h
    simp only [enter, pass, ho]
  · cases h

theorem Scope.enter_statement (s : Scope) {labels : Addresses} {l : TextLine}
    (h : l.Plain labels) :
    s.enter (.statement l) = s.cover l.first.line (l.operation.encode labels).length := by
  obtain ⟨-, m, implied, -, hd⟩ := h.stands
  rw [h.length]
  simp only [enter, pass]
  split
  · next ho => exact absurd ho (hd.ne_note _)
  · rfl

namespace Scope

variable {labels : Addresses}

/-- An entry adds to what is said just the note that it is, and as much as it has bytes of code. -/
theorem enter_understood {s : Scope} {ns : List Note} {n : Nat} {e : Entry}
    (he : e.Understood labels) (h : s.Recounts ns) (hn : s.Sized n) :
    (s.enter e).Recounts (ns ++ (Entry.note? e).toList) ∧
      (s.enter e).Sized (n + (e.codeBytes labels).length) := by
  cases e with
  | label | datum =>
    simp only [Entry.note?, Option.toList_none, List.append_nil]
    exact ⟨h, hn⟩
  | note name operands =>
    obtain ⟨note, hnote, -⟩ := he
    rw [enter_note hnote, hnote]
    exact ⟨h.note note, sized_note hn note⟩
  | statement l =>
    rw [enter_statement s he]
    simp only [Entry.note?, Option.toList_none, List.append_nil]
    exact ⟨h.cover _ _, hn.cover _ _⟩

theorem foldl_understood {s : Scope} {ns : List Note} {n : Nat} {es : List Entry}
    (hes : ∀ e ∈ es, e.Understood labels) (h : s.Recounts ns) (hn : s.Sized n) :
    (es.foldl enter s).Recounts (ns ++ notes es) ∧
      (es.foldl enter s).Sized (n + (es.flatMap (·.codeBytes labels)).length) := by
  induction es generalizing s ns n with
  | nil =>
    rw [notes, List.filterMap_nil, List.append_nil]
    exact ⟨h, hn⟩
  | cons e es ih =>
    obtain ⟨hr, hs⟩ := enter_understood (hes e List.mem_cons_self) h hn
    have hrest := ih (fun x hx => hes x (List.mem_cons_of_mem _ hx)) hr hs
    rw [List.flatMap_cons, List.length_append, ← Nat.add_assoc]
    rwa [List.append_assoc, ← notes_cons] at hrest

theorem getElem?_of_covered {α : Type} {xs ys : Array α} {x : α} {n k i : Nat}
    (h : (xs ++ List.replicate n x).toList <+: ys.toList) (hk : xs.size = k) (hi : i < n) :
    ys[k + i]? = some x := by
  obtain ⟨zs, hz⟩ := h
  rw [← Array.getElem?_toList, ← hz, Array.toList_appendList, List.append_assoc, ← hk,
    ← Array.length_toList, List.getElem?_append_right (Nat.le_add_right _ _),
    Nat.add_sub_cancel_left, List.getElem?_append_left (by simpa using hi), List.getElem?_replicate,
    if_pos hi]

/-- Of each byte of a statement it is said where it stands and what the notes above it say. -/
theorem foldl_at_statement {front back : List Entry} {l : TextLine}
    (hes : ∀ e ∈ front ++ .statement l :: back, e.Understood labels) {i : Nat}
    (hi : i < (l.operation.encode labels).length) :
    let t := (front ++ .statement l :: back).foldl enter {}
    let start := (front.flatMap (·.codeBytes labels)).length
    t.assemblyLines[start + i]? = some (UInt32.ofNat l.first.line) ∧
      t.sourceLines[start + i]? = some (latestLine (notes front)) ∧
      t.locals[start + i]? = some (Assembly.visible (notes front)) := by
  intro t start
  have hplain : l.Plain labels := hes (.statement l) (by simp)
  obtain ⟨hr, hs⟩ := foldl_understood (fun e he => hes e (List.mem_append_left _ he))
    recounts_empty sized_empty
  rw [List.nil_append] at hr
  rw [Nat.zero_add] at hs
  have ht : t = back.foldl enter ((front.foldl enter {}).cover l.first.line
      (l.operation.encode labels).length) := by
    simp only [t]
    rw [List.foldl_append, List.foldl_cons, enter_statement _ hplain]
  have hgrows := grows_foldl ((front.foldl enter {}).cover l.first.line
    (l.operation.encode labels).length) back
  rw [← ht] at hgrows
  rw [← hr.sourceLine, ← hr.visible]
  exact ⟨getElem?_of_covered hgrows.assemblyLines hs.assemblyLines hi,
    getElem?_of_covered hgrows.sourceLines hs.sourceLines hi,
    getElem?_of_covered hgrows.locals hs.locals hi⟩

end Scope

/-! ### Debug strings -/

/-- The text of a debug instruction. -/
def TextLine.debugText? (l : TextLine) : Option String :=
  match l.operation with
  | .debug _ text => some text
  | _ => none

theorem TextLine.debugStringsAfter_of_none {l : TextLine} (h : l.debugText? = none) :
    l.debugStringsAfter = l.debugStrings := by
  unfold debugText? at h
  unfold debugStringsAfter
  cases ho : l.operation <;> simp_all

theorem debugTexts_foldl (p : Plan) (es : List Entry) :
    debugTexts (es.foldl Plan.enter p).statements =
      debugTexts p.statements ++ (textLines es).filterMap TextLine.debugText? := by
  induction es generalizing p with
  | nil => exact (List.append_nil _).symm
  | cons e es ih =>
    rw [List.foldl_cons, ih]
    cases e with
    | label | datum => rfl
    | note name operands =>
      obtain h | ⟨n, h⟩ := noteStatement_operation name operands <;>
        simp [debugTexts, Plan.enter, textLines, h]
    | statement l =>
      cases ho : l.operation <;>
        simp [debugTexts, Plan.enter, textLines, TextLine.debugText?, ho]

/-- Each text line counts the debug instructions in front of it, where there are `n` before all. -/
def Counted (n : Nat) : List Entry → Prop
  | [] => True
  | .statement l :: es => l.debugStrings = n ∧ Counted l.debugStringsAfter es
  | _ :: es => Counted n es

theorem counted_labels {n : Nat} {es : List Entry} (h : Counted n es) (ts : List Token) :
    Counted n (ts.map Entry.label ++ es) := by
  induction ts with
  | nil => exact h
  | cons t ts ih => exact ih

theorem counted_outlineElement {images : String → Except FileError (List Byte)} {c : Context}
    {first : Token} {others : List Token} {es : List Entry}
    (h : Counted (outlineElement images c first others).2.debugStrings es) :
    Counted c.debugStrings ((outlineElement images c first others).1 :: es) := by
  unfold outlineElement at h ⊢
  cases hs : c.segment with
  | text =>
    rw [hs] at h
    exact ⟨rfl, h⟩
  | data =>
    rw [hs] at h
    exact h

theorem counted_outline (images : String → Except FileError (List Byte)) (c : Context)
    (ls : List (List Token)) : Counted c.debugStrings (outline images c ls) := by
  induction ls generalizing c with
  | nil => trivial
  | cons line ls ih =>
    have hrest := ih (outlineLine images c line).2
    rw [outline]
    obtain ⟨segment, -, h⟩ | h | ⟨name, operands, h⟩ | ⟨first, others, h⟩ :=
      outlineLine_cases images c line
    · rw [h] at hrest ⊢
      exact hrest
    · rw [h] at hrest ⊢
      exact counted_labels hrest _
    · rw [h] at hrest ⊢
      rw [List.append_assoc]
      refine counted_labels ?_ _
      exact hrest
    · rw [h] at hrest ⊢
      rw [List.append_assoc]
      exact counted_labels (counted_outlineElement hrest) _

theorem counted_entries (settings : Settings) (source : String) :
    Counted 0 (entries settings source) := counted_outline settings.images {} _

/-- Whether a line names the debug instruction. -/
def TextLine.isDebug (l : TextLine) : Bool := l.first.text.toLower = "debug"

/-- The debug instruction with its number and its text, which is its only operand. -/
structure TextLine.Debugs (l : TextLine) (t : Token) : Prop where
  operands : l.operands = [t]
  kind : t.kind = .string
  operation : l.operation = .debug (UInt8.ofNat l.debugStrings) t.text
  bound : l.debugStrings < 256

theorem isDebug_iff_of_means {l : TextLine} {m : Mnemonic} {implied : Option String}
    (h : Mnemonic.Means l.first.text m implied) : l.isDebug = true ↔ m = .debug := by
  rw [TextLine.isDebug, decide_eq_true_eq]
  constructor
  · intro hl
    have hword : Mnemonic.ofWord? l.first.text = some (.debug, none) :=
      (Mnemonic.ofWord?_of_toLower hl (by decide_cbv)).trans (by decide_cbv)
    rw [Mnemonic.ofWord?_of_means h] at hword
    exact congrArg Prod.fst (Option.some.inj hword)
  · rintro rfl
    cases h with
    | named h => exact (Mnemonic.name_of_words _ h).1
    | aliased ha h =>
      have hname := (Mnemonic.name_of_words _ h).1
      dsimp only at hname
      subst hname
      simp [Mnemonic.aliases, Mnemonic.name] at ha

theorem implied_of_debug {word : String} {implied : Option String}
    (h : Mnemonic.Means word .debug implied) : implied = none := by
  cases h <;> rfl

theorem Derives.ne_debug {n : Nat} {m : Mnemonic} {ts : List Token} {o : Operation}
    (h : Derives n m ts o) (hm : m ≠ .debug) (index : Byte) (text : String) :
    o ≠ .debug index text := by
  rintro rfl
  cases h
  exact hm rfl

theorem debug_cases {labels : Addresses} {l : TextLine} (h : l.Plain labels) :
    (l.isDebug = true ∧ ∃ t, l.Debugs t) ∨ (l.isDebug = false ∧ l.debugText? = none) := by
  obtain ⟨-, m, implied, hw, hd⟩ := h.stands
  have hmeans := Mnemonic.means_of_ofWord? hw
  have hiff := isDebug_iff_of_means hmeans
  by_cases hm : m = .debug
  · refine .inl ⟨hiff.mpr hm, ?_⟩
    subst hm
    rw [implied_of_debug hmeans] at hd
    generalize ho : l.operation = o at hd
    generalize hts : (Option.map (l.first.inPlace .identifier) none).toList ++ l.operands = ts at hd
    cases hd with
    | @debug t ht hb => exact ⟨t, hts, ht, ho, Nat.lt_succ_of_le hb⟩
  · refine .inr ⟨by rwa [← Bool.not_eq_true, hiff], ?_⟩
    unfold TextLine.debugText?
    split
    · next index text ho => exact absurd ho (hd.ne_debug hm index text)
    · rfl

/-- The lines that name the debug instruction. -/
def debugLines (es : List Entry) : List TextLine := (textLines es).filter (·.isDebug)

/-- The debug instructions are numbered in their order, and so are their texts. -/
theorem debugs_of_counted {labels : Addresses} {n : Nat} {es : List Entry} (h : Counted n es)
    (hes : ∀ e ∈ es, e.Understood labels) :
    (debugLines es).length = ((textLines es).filterMap TextLine.debugText?).length ∧
      ∀ k l, (debugLines es)[k]? = some l → l.debugStrings = n + k ∧
        ∃ t, l.Debugs t ∧ ((textLines es).filterMap TextLine.debugText?)[k]? = some t.text := by
  induction es generalizing n with
  | nil => exact ⟨rfl, nofun⟩
  | cons e es ih =>
    have hrest : ∀ e ∈ es, e.Understood labels := fun x hx => hes x (List.mem_cons_of_mem _ hx)
    cases e with
    | label | note | datum => exact ih h hrest
    | statement l =>
      obtain ⟨rfl, h⟩ := h
      have hcons : textLines (.statement l :: es) = l :: textLines es := rfl
      obtain ⟨hl, t, ht⟩ | ⟨hl, hnone⟩ := debug_cases (hes (.statement l) List.mem_cons_self)
      · have htext : l.debugText? = some t.text := by rw [TextLine.debugText?, ht.operation]
        have hafter : l.debugStringsAfter = l.debugStrings + 1 := by
          rw [TextLine.debugStringsAfter, ht.operation]
        rw [hafter] at h
        obtain ⟨hlength, hk⟩ := ih h hrest
        rw [debugLines, hcons, List.filter_cons_of_pos hl, List.filterMap_cons_some htext]
        refine ⟨congrArg (· + 1) hlength, fun k u hu => ?_⟩
        cases k with
        | zero =>
          cases hu
          exact ⟨rfl, t, ht, rfl⟩
        | succ k =>
          obtain ⟨hn, hrest⟩ := hk k u hu
          exact ⟨by omega, hrest⟩
      · rw [TextLine.debugStringsAfter_of_none hnone] at h
        rw [debugLines, hcons, List.filter_cons_of_neg (by simp [hl]),
          List.filterMap_cons_none hnone]
        exact ih h hrest

/-! ### Debug information -/

/-- What the debug information of a program says of its code. -/
structure Aligned (es : List Entry) (labels : Addresses) (code : List Byte) (d : DebugInfo) :
    Prop where
  assemblyLines : d.assemblyLines.size = code.length
  sourceLines : d.sourceLines.size = code.length
  locals : d.locals.size = code.length
  /-- The code is that of the statements, one behind the other. -/
  code : code = es.flatMap (·.codeBytes labels)
  /-- Of each byte of a statement: the line of its first word, and the last line and the visible
  variables among the notes above it. -/
  bytes : ∀ front l back, es = front ++ .statement l :: back →
    ∀ i < (l.operation.encode labels).length,
      d.assemblyLines[(front.flatMap (·.codeBytes labels)).length + i]? =
          some (UInt32.ofNat l.first.line) ∧
        d.sourceLines[(front.flatMap (·.codeBytes labels)).length + i]? =
          some (latestLine (notes front)) ∧
        d.locals[(front.flatMap (·.codeBytes labels)).length + i]? = some (visible (notes front))
  globals : d.globals = (notes es).filterMap Note.global?
  sourceFile : d.sourceFile = latestFile (notes es)
  /-- Each note of the source is one of the grammar. -/
  notes : ∀ name operands, .note name operands ∈ es →
    ∃ n, Entry.note? (.note name operands) = some n ∧ Says name.text.toLower operands n
  debugStrings : (debugLines es).length = d.debugStrings.length
  /-- The debug instructions are numbered by the strings that are their operands. -/
  debug : ∀ k l, (debugLines es)[k]? = some l → k < 256 ∧
    ∃ t, l.operands = [t] ∧ t.kind = .string ∧ d.debugStrings[k]? = some t.text ∧
      l.operation.instruction? labels = some (.debug (UInt8.ofNat k))

variable {settings : Settings} {source : String} {p : Program}

theorem Plan.note_mem {p : Plan} {es : List Entry} {name : Token} {operands : List Token}
    (h : Entry.note name operands ∈ es) :
    noteStatement name operands ∈ (es.foldl enter p).statements := by
  obtain ⟨before, after, rfl⟩ := List.append_of_mem h
  rw [List.foldl_append, List.foldl_cons]
  exact (grow_foldl _ after).1.subset (List.mem_append_right _ (List.mem_singleton.mpr rfl))

theorem understood_of_some (h : (assemble settings source).program = some p) :
    ∀ e ∈ entries settings source, e.Understood (assemble settings source).labels := by
  intro e he
  have haccepted := accepted_of_some h
  cases e with
  | label | datum => trivial
  | statement l =>
    obtain ⟨hstands, hresolved⟩ := stands_of_accepted haccepted he
    exact ⟨hstands, encode_length_of_resolved hresolved⟩
  | note name operands =>
    refine says_of_clean (haccepted.clean.1 _ ?_)
    rw [statements_of_draft]
    exact Plan.note_mem he

/-- The debug information of a program is in step with its code. -/
theorem debugInfo_aligned (h : (assemble settings source).program = some p) :
    ∃ d, p.debugInfo = some d ∧
      Aligned (entries settings source) (assemble settings source).labels p.code d := by
  have hes := understood_of_some h
  have hcode := code_of_some h
  obtain ⟨hr, hs⟩ := Scope.foldl_understood hes Scope.recounts_empty Scope.sized_empty
  rw [← Scope.ofStatements_draft, List.nil_append] at hr
  rw [← Scope.ofStatements_draft, Nat.zero_add, ← hcode] at hs
  have htexts : debugTexts (draft settings source).statements.toList =
      (textLines (entries settings source)).filterMap TextLine.debugText? := by
    change debugTexts (draft settings source).plan.statements = _
    rw [statements_of_draft, debugTexts_foldl]
    rfl
  obtain ⟨hlength, hdebug⟩ := debugs_of_counted (counted_entries settings source) hes
  rw [← htexts] at hlength hdebug
  refine ⟨debugInfo settings source (draft settings source), ?_, ?_⟩
  · rw [eq_program_of_some h]
    rfl
  exact
    { assemblyLines := hs.assemblyLines
      sourceLines := hs.sourceLines
      locals := hs.locals
      code := hcode
      bytes := by
        intro front l back hsplit i hi
        have hat := Scope.foldl_at_statement (hsplit ▸ hes) hi
        rw [← hsplit, ← Scope.ofStatements_draft] at hat
        exact hat
      globals := hr.globals
      sourceFile := hr.sourceFile
      notes := fun name operands he => hes (.note name operands) he
      debugStrings := hlength
      debug := by
        intro k l hk
        obtain ⟨hn, t, ht, htext⟩ := hdebug k l hk
        have hindex : l.debugStrings = k := hn.trans (Nat.zero_add k)
        refine ⟨hindex ▸ ht.bound, t, ht.operands, ht.kind, htext, ?_⟩
        rw [ht.operation, hindex]
        rfl }

/-- A note between data counts for the code below it, and lines are counted across a text of two
lines. -/
theorem debugInfo_aligned_of_twoLines :
    let source := "@line 7\nli t0 5\n.data\n@local \"x\" -2 \"int\"\n\"two\nlines\"\n.text\n" ++
      "debug \"$t0\"\n@endlocal \"x\"\nsys exit"
    ∃ p d, (assemble {} source).program = some p ∧ p.debugInfo = some d ∧
      d.assemblyLines = #[2, 2, 2, 2, 8, 8, 10, 10] ∧
      d.locals = #[[], [], [], [], [⟨"x", -2, "int"⟩], [⟨"x", -2, "int"⟩], [], []] ∧
      Aligned (entries {} source) (assemble {} source).labels p.code d := by
  intro source
  have hp : (assemble {} source).program.map (fun p => p.debugInfo.map fun d =>
      (d.assemblyLines, d.locals)) = some (some (#[2, 2, 2, 2, 8, 8, 10, 10],
        #[[], [], [], [], [⟨"x", -2, "int"⟩], [⟨"x", -2, "int"⟩], [], []])) := by
    decide +kernel
  obtain ⟨p, hp, hd⟩ := Option.map_eq_some_iff.mp hp
  obtain ⟨d, hd', haligned⟩ := debugInfo_aligned hp
  rw [hd', Option.map_some, Option.some.injEq, Prod.mk.injEq] at hd
  exact ⟨p, d, hp, hd', hd.1, hd.2, haligned⟩

end Minicomputer.Assembly
