import Minicomputer.Proofs.Assembly.Address
import Minicomputer.Proofs.Assembly.Recognition

/-!
# Labels that are bound

Labels are bound as their elements come, some of them long after they were read. What a source says
of a name is nevertheless told by its label tokens alone: the first one binds the name to the
element behind it, and each other one is complained about where it stands.
-/

set_option autoImplicit false

namespace Minicomputer.Assembly

open Reading

/-! ### Label tokens -/

/-- The labels that a line begins with. -/
def leadingLabels (line : List Token) : List Token := line.takeWhile (·.kind = .label)

/-- The labels of a source that come before any other token of their line. -/
def labelTokens (settings : Settings) (source : String) : List Token :=
  (lines (Token.scan source settings.commentLeader)).flatMap leadingLabels

def Entry.label? : Entry → Option Token
  | .label t => some t
  | _ => none

theorem labels_map_label (ts : List Token) : (ts.map Entry.label).filterMap Entry.label? = ts := by
  induction ts with
  | nil => rfl
  | cons t ts ih => simp [Entry.label?, ih]

theorem isElement_outlineElement (images : String → Except FileError (List Byte)) (c : Context)
    (first : Token) (others : List Token) :
    (outlineElement images c first others).1.isElement = true := by
  unfold outlineElement
  cases c.segment <;> rfl

theorem label?_of_isElement {e : Entry} (h : e.isElement = true) : e.label? = none := by
  cases e with
  | label | note => cases h
  | statement | datum => rfl

theorem leadingLabels_of_segment {line : List Token} {segment : Segment}
    (h : segment? line = some segment) : leadingLabels line = [] := by
  match line with
  | [] => rfl
  | [t] => simp [segment?, directive?] at h
  | t :: u :: ts =>
    have hk : t.kind = .dot := by
      by_contra hk
      simp [segment?, directive?, hk] at h
    simp [leadingLabels, hk]

/-- The labels of an outline are those of the lines. -/
theorem labels_outlineLine (images : String → Except FileError (List Byte)) (c : Context)
    (line : List Token) :
    (outlineLine images c line).1.filterMap Entry.label? = leadingLabels line := by
  have hlabels := labels_map_label (leadingLabels line)
  obtain ⟨segment, hs, h⟩ | h | ⟨name, operands, h⟩ | ⟨first, others, h⟩ :=
    outlineLine_cases images c line
  · rw [h]
    exact (leadingLabels_of_segment hs).symm
  · rw [h]
    exact hlabels
  · rw [h, List.filterMap_append]
    exact (congrArg (· ++ []) hlabels).trans (List.append_nil _)
  · rw [h, List.filterMap_append, List.filterMap_cons,
      label?_of_isElement (isElement_outlineElement images c first others)]
    exact (congrArg (· ++ []) hlabels).trans (List.append_nil _)

theorem labels_outline (images : String → Except FileError (List Byte)) (c : Context)
    (ls : List (List Token)) :
    (outline images c ls).filterMap Entry.label? = ls.flatMap leadingLabels := by
  induction ls generalizing c with
  | nil => rfl
  | cons line ls ih =>
    rw [outline, List.filterMap_append, labels_outlineLine, ih, List.flatMap_cons]

theorem labels_entries (settings : Settings) (source : String) :
    (entries settings source).filterMap Entry.label? = labelTokens settings source :=
  labels_outline ..

/-! ### Complaints that are not about labels -/

theorem aboutOperands_of_note {word : String} {r : Reading Note} (h : note? word = some r) :
    Careful r := by
  unfold note? at h
  split at h
  all_goals first
    | (cases h; infer_instance)
    | cases h

theorem aboutOperands_noteStatement (name : Token) (operands : List Token) :
    AboutOperands (noteStatement name operands).diagnostics := by
  simp only [noteStatement]
  cases hr : note? name.text.toLower with
  | none => exact aboutOperands_singleton name (by simp)
  | some r =>
    have hcareful := aboutOperands_of_note hr
    exact aboutOperands_all name operands r

theorem aboutOperands_value (images : String → Except FileError (List Byte))
    (graphics : List (List Byte)) (first : Token) (others : List Token) :
    AboutOperands (Draft.value images graphics first others).2.2 := by
  have hunexpected := aboutOperands_singleton first (c := .unexpectedToken) (by simp)
  have hascii : AboutOperands (if first.text.toList.all fun c => c.toNat < 128 then []
      else [⟨first, .nonAsciiString⟩]) := by
    split
    · exact aboutOperands_nil
    · exact aboutOperands_singleton first (by simp)
  have himage (path : String) : AboutOperands (Draft.readImage images graphics first path).2.2 := by
    unfold Draft.readImage
    cases images path with
    | ok bytes => exact aboutOperands_nil
    | error e => exact aboutOperands_singleton first (by simp)
  have hword := aboutOperands_all first (first :: others) word
  have hcount := aboutOperands_all first others.tail (integer 0 4096)
  unfold Draft.value
  dsimp only
  split
  · exact hascii.append (aboutOperands_all first others (pure ()))
  · exact hword
  · exact hword
  · exact hword
  · exact hword
  · split
    · exact hcount
    · exact hcount
    · exact (himage _).append (aboutOperands_all first others.tail string)
    · exact aboutOperands_singleton first (by simp)
    · exact AboutOperands.append hunexpected (aboutOperands_all first others (pure ()))

/-- What is said about the labels in front of an element comes of them alone. -/
def Entry.Plain : Entry → Prop
  | .datum e => AboutOperands e.diagnostics
  | _ => True

theorem plain_outlineElement (images : String → Except FileError (List Byte)) (c : Context)
    (first : Token) (others : List Token) : (outlineElement images c first others).1.Plain := by
  unfold outlineElement
  cases c.segment with
  | text => trivial
  | data => exact aboutOperands_value images c.graphics first others

theorem plain_outline (images : String → Except FileError (List Byte)) (c : Context)
    (ls : List (List Token)) : ∀ e ∈ outline images c ls, e.Plain := by
  have hlabels (ts : List Token) : ∀ e ∈ ts.map Entry.label, e.Plain := by
    intro e he
    obtain ⟨t, -, rfl⟩ := List.mem_map.mp he
    trivial
  have hlast {es : List Entry} {x : Entry} (hes : ∀ e ∈ es, e.Plain) (hx : x.Plain) :
      ∀ e ∈ es ++ [x], e.Plain := by
    intro e he
    obtain he | he := List.mem_append.mp he
    · exact hes e he
    · exact List.mem_singleton.mp he ▸ hx
  have hline (c : Context) (line : List Token) : ∀ e ∈ (outlineLine images c line).1, e.Plain := by
    obtain ⟨segment, -, h⟩ | h | ⟨name, operands, h⟩ | ⟨first, others, h⟩ :=
      outlineLine_cases images c line
    · rw [h]
      exact List.forall_mem_nil _
    · rw [h]
      exact hlabels _
    · rw [h]
      exact hlast (hlabels _) trivial
    · rw [h]
      exact hlast (hlabels _) (plain_outlineElement ..)
  induction ls generalizing c with
  | nil => exact List.forall_mem_nil _
  | cons line ls ih =>
    intro e he
    obtain he | he := List.mem_append.mp he
    · exact hline c line e he
    · exact ih _ e he

/-! ### Repeated names -/

/-- The tokens that a name is said of to have been bound before. -/
def repeats (name : String) (ds : List Diagnostic) : List Token :=
  (ds.filter fun d => d.cause = .duplicateLabel ∧ d.token.text = name).map (·.token)

theorem repeats_append (name : String) (ds es : List Diagnostic) :
    repeats name (ds ++ es) = repeats name ds ++ repeats name es := by
  rw [repeats, List.filter_append, List.map_append, repeats, repeats]

theorem repeats_of_aboutOperands (name : String) {ds : List Diagnostic} (h : AboutOperands ds) :
    repeats name ds = [] := by
  rw [repeats, List.map_eq_nil_iff, List.filter_eq_nil_iff]
  intro d hd
  simp [h d hd]

theorem contains_define? {table u : LabelTable} {target : LabelTarget} {t : Token}
    (h : table.define? t.text target = some u) (name : String) :
    u.contains name = (decide (t.text = name) || table.contains name) := by
  rw [LabelTable.contains, LabelTable.target?_define? h]
  by_cases hn : name = t.text
  · simp [hn]
  · simp [hn, Ne.symm hn, LabelTable.contains]

/-- A label is complained about exactly where its name has been bound before. -/
theorem repeats_bind (table : LabelTable) (target : LabelTarget) (ts : List Token) (name : String) :
    repeats name (Draft.bind table target ts).2 =
      if table.contains name then named name ts else (named name ts).tail := by
  induction ts generalizing table with
  | nil => simp [Draft.bind, repeats, named]
  | cons t ts ih =>
    rw [Draft.bind]
    cases hd : table.define? t.text target with
    | some u =>
      have hfree : table.contains t.text = false := by
        rw [LabelTable.contains, target?_of_define? hd]
        rfl
      dsimp only
      rw [ih, contains_define? hd]
      by_cases hn : t.text = name
      · rw [← hn, hfree]
        simp [named]
      · simp [named, hn]
    | none =>
      have hbound := (LabelTable.define?_eq_none_iff table t.text target).mp hd
      have hcons : repeats name (⟨t, .duplicateLabel⟩ :: (Draft.bind table target ts).2) =
          named name [t] ++ repeats name (Draft.bind table target ts).2 := by
        by_cases hn : t.text = name <;> simp [repeats, named, hn]
      dsimp only
      rw [hcons, ih]
      by_cases hn : t.text = name
      · rw [← hn, hbound]
        simp [named]
      · simp [named, hn]

theorem contains_bind (table : LabelTable) (target : LabelTarget) (ts : List Token)
    (name : String) :
    (Draft.bind table target ts).1.contains name =
      (table.contains name || decide (named name ts ≠ [])) := by
  rw [LabelTable.contains, target?_bind, LabelTable.contains]
  by_cases h : named name ts = [] <;> cases table.target? name <;> simp [h]

/-! ### What has been bound in a plan -/

/-- The labels of a name that come too late, as one before them or the machine has the name. -/
def late (name : String) (ts : List Token) : List Token :=
  if name = LabelTable.frameBufferName then named name ts else (named name ts).tail

theorem late_append (name : String) (ts us : List Token) :
    late name (ts ++ us) = late name ts ++
      if name = LabelTable.frameBufferName ∨ named name ts ≠ [] then named name us
      else (named name us).tail := by
  unfold late
  rw [named_append]
  by_cases hf : name = LabelTable.frameBufferName
  · simp [hf]
  · cases h : named name ts with
    | nil => simp [hf]
    | cons t ts => simp [hf]

namespace Plan

def diagnostics (p : Plan) : List Diagnostic :=
  p.statements.flatMap (·.diagnostics) ++ p.data.flatMap (·.diagnostics)

/-- The labels in `bound` have been bound in their order, and nothing else. -/
structure Binds (p : Plan) (bound : List Token) (name : String) : Prop where
  contains : p.labels.contains name =
    decide (name = LabelTable.frameBufferName ∨ named name bound ≠ [])
  repeats : (repeats name p.diagnostics).Perm (late name bound)

variable {p : Plan} {bound : List Token} {name : String}

theorem Binds.target?_eq_none (h : p.Binds bound name) (hf : name ≠ LabelTable.frameBufferName)
    (hb : named name bound = []) : p.labels.target? name = none := by
  by_contra hc
  have hbound : p.labels.contains name = true := Option.isSome_iff_ne_none.mpr hc
  rw [h.contains, decide_eq_true_eq] at hbound
  exact hbound.elim hf fun hn => hn hb

theorem binds_empty (name : String) : ({} : Plan).Binds [] name where
  contains := by
    by_cases h : name = LabelTable.frameBufferName
    · subst h
      rfl
    · simp [LabelTable.contains, LabelTable.target?, LabelTable.builtIn, named, List.lookup_cons,
        beq_false_of_ne h, h]
  repeats := by simp [late, named, Assembly.repeats, diagnostics]

/-- Labels that are bound are complained about once they come too late. -/
theorem Binds.bind (h : p.Binds bound name) (target : LabelTarget) {q : Plan} {ts : List Token}
    (hlabels : q.labels = (Draft.bind p.labels target ts).1)
    (hrepeats : (Assembly.repeats name q.diagnostics).Perm (Assembly.repeats name p.diagnostics ++
      Assembly.repeats name (Draft.bind p.labels target ts).2)) :
    q.Binds (bound ++ ts) name where
  contains := by
    rw [hlabels, contains_bind, h.contains, named_append]
    simp [Bool.or_assoc]
  repeats := by
    refine hrepeats.trans ?_
    rw [late_append, repeats_bind, h.contains]
    simp only [decide_eq_true_eq]
    exact h.repeats.append_right _

theorem Binds.enter (h : p.Binds bound name) {e : Entry} (he : e.Plain) :
    ∃ more, more ++ (p.enter e).held = p.held ++ e.label?.toList ∧
      (p.enter e).Binds (bound ++ more) name := by
  cases e with
  | label t =>
    refine ⟨[], rfl, ?_⟩
    rw [List.append_nil]
    exact ⟨h.contains, h.repeats⟩
  | note first operands =>
    refine ⟨[], (List.append_nil _).symm, ?_⟩
    rw [List.append_nil]
    refine ⟨h.contains, ?_⟩
    have hnone := repeats_of_aboutOperands name (aboutOperands_noteStatement first operands)
    simpa [diagnostics, Plan.enter, repeats_append, hnone] using h.repeats
  | statement l =>
    refine ⟨p.held, rfl, h.bind (.instruction p.statements.length) rfl ?_⟩
    have hnone : Assembly.repeats name l.complaints = [] :=
      repeats_of_aboutOperands name (aboutOperands_operation _ _ _)
    simp only [diagnostics, Plan.enter, List.flatMap_append, List.flatMap_singleton,
      repeats_append, hnone, List.append_assoc]
    exact List.perm_append_comm.append_left _
  | datum d =>
    refine ⟨p.held, rfl, h.bind (.data p.data.length) rfl ?_⟩
    have hnone := repeats_of_aboutOperands name he
    simp only [diagnostics, Plan.enter, List.flatMap_append, List.flatMap_singleton,
      repeats_append, hnone, List.append_nil, List.append_assoc]
    exact List.Perm.refl _

theorem Binds.foldl (h : p.Binds bound name) {es : List Entry} (hes : ∀ e ∈ es, e.Plain) :
    ∃ more, more ++ (es.foldl Plan.enter p).held = p.held ++ es.filterMap Entry.label? ∧
      (es.foldl Plan.enter p).Binds (bound ++ more) name := by
  induction es generalizing p bound with
  | nil => exact ⟨[], by simp, by simpa using h⟩
  | cons e es ih =>
    obtain ⟨first, hf, hb⟩ := h.enter (hes e List.mem_cons_self)
    obtain ⟨rest, hr, hbinds⟩ := ih hb fun x hx => hes x (List.mem_cons_of_mem _ hx)
    refine ⟨first ++ rest, ?_, by rwa [← List.append_assoc]⟩
    rw [List.append_assoc, List.foldl_cons, hr, ← List.append_assoc, hf, List.append_assoc,
      List.filterMap_cons]
    cases e.label? <;> rfl

theorem Binds.close (h : p.Binds bound name) : p.close.Binds (bound ++ p.held) name := by
  unfold Plan.close
  cases hl : p.held.getLast? with
  | none =>
    rw [List.getLast?_eq_none_iff.mp hl, List.append_nil]
    exact h
  | some last =>
    refine h.bind (.data p.data.length) rfl ?_
    simp only [diagnostics, List.flatMap_append, List.flatMap_singleton, repeats_append,
      List.append_assoc]
    exact List.Perm.refl _

end Plan

/-- In the end all labels of the source have been bound. -/
theorem binds_draft (settings : Settings) (source name : String) :
    (draft settings source).plan.Binds (labelTokens settings source) name := by
  have hplain := plain_outline settings.images {} (lines (Token.scan source settings.commentLeader))
  obtain ⟨bound, hlabels, hbinds⟩ := (Plan.binds_empty name).foldl hplain
  have hall : bound ++ ((entries settings source).foldl Plan.enter {}).held =
      labelTokens settings source := hlabels.trans (labels_entries settings source)
  rw [draft_plan, ← hall]
  exact hbinds.close

end Minicomputer.Assembly
