import Minicomputer.Proofs.Assembly.Binding
import Minicomputer.Proofs.Token.Place

/-!
# Labels that are defined twice

A name is complained about at each label but the first one, in the order of the source, and stands
for the place of that first one. The complaints are gathered from statements and data, which take
their labels late, and sorted by their places, so that the two orders have to be shown to be one.
-/

set_option autoImplicit false

namespace Minicomputer.Assembly

open Reading

/-! ### Complaints in the order of the source -/

/-- The text of a complaint tells it from all others. -/
theorem Diagnostic.message_eq_iff (d : Diagnostic) (name : String) :
    d.message = alreadyDefined name ↔ d.cause = .duplicateLabel ∧ d.token.text = name := by
  obtain ⟨t, c⟩ := d
  constructor
  · intro h
    unfold message alreadyDefined at h
    cases c with
    | duplicateLabel => exact ⟨rfl, by simpa using h⟩
    | _ =>
      have hfirst := congrArg (·.toList.head?) h
      simp at hfirst
  · rintro ⟨rfl, rfl⟩
    rfl

theorem tokens_of_alreadyDefined (name : String) (ds : List Diagnostic) :
    (ds.filter (·.message = alreadyDefined name)).map (·.token) = repeats name ds := by
  simp only [repeats, Diagnostic.message_eq_iff]

theorem repeats_flatMap {α : Type} (name : String) (xs : List α) (f : α → List Diagnostic) :
    repeats name (xs.flatMap f) = xs.flatMap fun x => repeats name (f x) := by
  rw [repeats, List.filter_flatMap, List.map_flatMap]
  rfl

theorem aboutOperands_strays (settings : Settings) (source : String) :
    AboutOperands (draft settings source).strays := by
  have hline (d : Draft) (h : AboutOperands d.strays) (line : List Token) :
      AboutOperands (Draft.addLine settings.images d line).strays := by
    unfold Draft.addLine
    split
    · refine h.append fun c hc => ?_
      obtain ⟨t, -, rfl⟩ := Option.map_eq_some_iff.mp (Option.mem_toList.mp hc)
      simp
    · dsimp only
      split
      · exact h
      · split
        · exact h
        · split <;> exact h
  have hlines (ls : List (List Token)) (d : Draft) (h : AboutOperands d.strays) :
      AboutOperands (ls.foldl (Draft.addLine settings.images) d).strays := by
    induction ls generalizing d with
    | nil => exact h
    | cons line ls ih => exact ih _ (hline d h line)
  have hall :=
    hlines (lines (Token.scan source settings.commentLeader)) {} aboutOperands_nil
  unfold draft Draft.ofTokens Draft.close
  split <;> exact hall

theorem aboutOperands_labelDiagnostics (labels : Addresses) (s : Statement) :
    AboutOperands (s.labelDiagnostics labels) := by
  unfold Statement.labelDiagnostics
  split
  · exact aboutOperands_nil
  · split
    · exact aboutOperands_singleton _ (by simp)
    · split
      · exact aboutOperands_singleton _ (by simp)
      · exact aboutOperands_nil

theorem aboutOperands_sizeDiagnostics (d : Draft) : AboutOperands d.sizeDiagnostics := by
  simp only [Draft.sizeDiagnostics]
  split
  · exact aboutOperands_singleton _ (by simp)
  · exact aboutOperands_nil

theorem repeats_inOrder (name : String) (ds : List Diagnostic) :
    (repeats name (Diagnostic.inOrder ds)).Perm (repeats name ds) :=
  ((List.mergeSort_perm ds Diagnostic.notAfter).filter _).map _

/-- Only statements and data say that a name is repeated, whatever their order. -/
theorem repeats_diagnostics (settings : Settings) (source name : String) :
    (repeats name (draft settings source).diagnostics).Perm
      (repeats name (draft settings source).plan.diagnostics) := by
  refine (repeats_inOrder name _).trans (List.Perm.of_eq ?_)
  have hlabels (s : Statement) : repeats name (s.labelDiagnostics (draft settings source).addresses)
      = [] := repeats_of_aboutOperands name (aboutOperands_labelDiagnostics _ s)
  have hstrays := repeats_of_aboutOperands name (aboutOperands_strays settings source)
  have hsize :=
    repeats_of_aboutOperands name (aboutOperands_sizeDiagnostics (draft settings source))
  simp only [repeats_append, repeats_flatMap, hlabels, hstrays, hsize, Plan.diagnostics,
    List.append_nil]
  rfl

/-- No token is in front of one that is listed before it. -/
def InOrder (ts : List Token) : Prop := ts.Pairwise fun t u => ¬ Token.Before u.start t.start

theorem Diagnostic.notAfter_iff (d e : Diagnostic) :
    d.notAfter e = true ↔ ¬ Token.Before e.token.start d.token.start := by
  simp only [notAfter, Bool.or_eq_true, Bool.and_eq_true, decide_eq_true_eq, beq_iff_eq]
  unfold Token.Before Token.line
  omega

theorem inOrder_repeats (name : String) (ds : List Diagnostic) :
    InOrder (repeats name (Diagnostic.inOrder ds)) :=
  List.pairwise_map.mpr
    (((pairwise_inOrder ds).filter _).imp (Diagnostic.notAfter_iff _ _).mp)

theorem labelTokens_sublist (settings : Settings) (source : String) :
    (labelTokens settings source).Sublist (Token.scan source settings.commentLeader) := by
  have hlines (ls : List (List Token)) : (ls.flatMap leadingLabels).Sublist ls.flatten := by
    induction ls with
    | nil => exact List.Sublist.slnil
    | cons line ls ih => exact (List.takeWhile_sublist _).append ih
  refine (hlines _).trans ?_
  rw [lines, List.flatten_splitBy]
  exact List.filter_sublist

theorem late_sublist (name : String) (ts : List Token) : (late name ts).Sublist ts := by
  unfold late
  split
  · exact List.filter_sublist
  · exact (List.tail_sublist _).trans List.filter_sublist

/-- Tokens that are in their order are told by which ones they are. -/
theorem eq_of_inOrder {ts us : List Token} (h : ts.Perm us) (ht : InOrder ts)
    (hu : us.Pairwise fun t u => Token.Before t.start u.start) : ts = us := by
  have htotal : ∀ t ∈ us, ∀ u ∈ us,
      t = u ∨ Token.Before t.start u.start ∨ Token.Before u.start t.start := by
    have hsymm : Std.Symm fun t u : Token =>
        t = u ∨ Token.Before t.start u.start ∨ Token.Before u.start t.start :=
      ⟨fun _ _ h => h.imp Eq.symm Or.symm⟩
    exact List.Pairwise.forall_of_forall (fun _ _ => .inl rfl) (hu.imp fun h => .inr (.inl h))
  refine h.eq_of_pairwise (fun t u hmt hmu htu hut => ?_) ht (hu.imp fun h => ?_)
  · obtain h | h | h := htotal t (h.subset hmt) u hmu
    · exact h
    · exact absurd h hut
    · exact absurd h htu
  · unfold Token.Before at *
    omega

/-- A name is complained about at its labels that come too late, from the first one on. -/
theorem repeats_draft (settings : Settings) (source name : String) :
    repeats name (draft settings source).diagnostics = late name (labelTokens settings source) := by
  have hperm := (repeats_diagnostics settings source name).trans
    (binds_draft settings source name).repeats
  have hpath := (Token.path_scan source settings.commentLeader).pairwise_before
  exact eq_of_inOrder hperm (inOrder_repeats name _)
    (hpath.sublist ((late_sublist name _).trans (labelTokens_sublist settings source)))

/-! ### Where the first label stands -/

namespace Entry

/-- Whether an entry is a label of a given name. -/
def defines (name : String) (e : Entry) : Bool := e.label?.any (·.text = name)

theorem exists_of_defines {name : String} {e : Entry} (h : e.defines name = true) :
    ∃ t, e = .label t ∧ t.text = name := by
  cases e with
  | label t => exact ⟨t, rfl, by simpa [defines, label?] using h⟩
  | note | statement | datum => cases h

/-- The space in the code that is set aside for an entry. -/
def codeSize : Entry → Nat
  | .statement l => l.operation.size
  | _ => 0

/-- The space in the data that is set aside for an entry. -/
def dataSize : Entry → Nat
  | .datum e => e.size
  | _ => 0

theorem size_of_not_isElement {e : Entry} (h : e.isElement = false) :
    e.codeSize = 0 ∧ e.dataSize = 0 := by
  cases e with
  | label | note => exact ⟨rfl, rfl⟩
  | statement | datum => cases h

end Entry

def codeSize (es : List Entry) : Nat := total (es.map (·.codeSize))

def dataSize (es : List Entry) : Nat := total (es.map (·.dataSize))

theorem codeSize_cons (e : Entry) (es : List Entry) :
    codeSize (e :: es) = e.codeSize + codeSize es := rfl

theorem dataSize_cons (e : Entry) (es : List Entry) :
    dataSize (e :: es) = e.dataSize + dataSize es := rfl

theorem codeSize_append (es fs : List Entry) : codeSize (es ++ fs) = codeSize es + codeSize fs := by
  rw [codeSize, List.map_append, total_append, codeSize, codeSize]

theorem dataSize_append (es fs : List Entry) : dataSize (es ++ fs) = dataSize es + dataSize fs := by
  rw [dataSize, List.map_append, total_append, dataSize, dataSize]

/-- What is no element takes no space. -/
theorem sizes_of_waiting {es : List Entry} (h : ∀ e ∈ es, e.isElement = false) :
    codeSize es = 0 ∧ dataSize es = 0 := by
  induction es with
  | nil => exact ⟨rfl, rfl⟩
  | cons e es ih =>
    obtain ⟨hc, hd⟩ := ih fun x hx => h x (List.mem_cons_of_mem _ hx)
    obtain ⟨hec, hed⟩ := Entry.size_of_not_isElement (h e List.mem_cons_self)
    constructor
    · exact congrArg₂ (· + ·) hec hc
    · exact congrArg₂ (· + ·) hed hd

/-- Where a label between two lists of entries stands: in front of the next element, or at the end
of the data where there is none. -/
def placeBetween (front back : List Entry) : Nat :=
  match back.find? (·.isElement) with
  | some (.statement _) => codeSize front
  | some _ => codeSize (front ++ back) + dataSize front
  | none => codeSize (front ++ back) + dataSize (front ++ back)

/-- A label stands where those around it stand. -/
theorem placeBetween_of_waiting (front back : List Entry) {waiting : List Entry}
    (h : ∀ e ∈ waiting, e.isElement = false) :
    placeBetween (front ++ waiting) back = placeBetween front (waiting ++ back) := by
  obtain ⟨hc, hd⟩ := sizes_of_waiting h
  have hnone : waiting.find? (·.isElement) = none :=
    List.find?_eq_none.mpr fun e he => by simp [h e he]
  unfold placeBetween
  rw [List.find?_append, hnone, Option.none_or, codeSize_append front waiting, hc,
    dataSize_append front waiting, hd, List.append_assoc]
  rfl

theorem size_noteStatement (name : Token) (operands : List Token) :
    (noteStatement name operands).size = 0 := by
  rw [Statement.size]
  obtain h | ⟨n, h⟩ := noteStatement_operation name operands <;> rw [h] <;> rfl

namespace Plan

theorem codeSize_foldl (p : Plan) (es : List Entry) :
    total ((es.foldl enter p).statements.map (·.size)) =
      total (p.statements.map (·.size)) + codeSize es := by
  induction es generalizing p with
  | nil => rfl
  | cons e es ih =>
    rw [List.foldl_cons, ih, codeSize_cons, ← Nat.add_assoc]
    congr 1
    cases e with
    | label | datum => rfl
    | note name operands => simp [enter, total_append, total, size_noteStatement, Entry.codeSize]
    | statement l => simp [enter, total_append, total, Statement.size, Entry.codeSize]

theorem dataSize_foldl (p : Plan) (es : List Entry) :
    total ((es.foldl enter p).data.map (·.size)) =
      total (p.data.map (·.size)) + dataSize es := by
  induction es generalizing p with
  | nil => rfl
  | cons e es ih =>
    rw [List.foldl_cons, ih, dataSize_cons, ← Nat.add_assoc]
    congr 1
    cases e with
    | label | note | statement => rfl
    | datum d => simp [enter, total_append, total, Datum.size, Entry.dataSize]

end Plan

section

variable {settings : Settings} {source : String}

theorem codeSize_draft (settings : Settings) (source : String) :
    (draft settings source).codeSize = codeSize (entries settings source) := by
  have hs := statements_of_draft settings source
  change total ((draft settings source).plan.statements.map (·.size)) = _
  rw [hs, Plan.codeSize_foldl]
  exact Nat.zero_add _

/-- A label bound to an element stands in front of it. -/
theorem lookup_of_next {name : String} {front after : List Entry} {e : Entry}
    (hes : entries settings source = front ++ e :: after) (he : e.isElement = true)
    (ht : ((entries settings source).foldl Plan.enter {}).close.labels.target? name =
      some ((front.foldl Plan.enter {}).target e)) :
    (assemble settings source).labels.lookup name =
      some (placeBetween front (e :: after) : Int) := by
  rw [lookup_labels, draft_plan, ht, Option.map_some]
  have hfind : (e :: after).find? (·.isElement) = some e := List.find?_cons_of_pos he
  cases e with
  | label | note => cases he
  | statement l =>
    obtain ⟨s, hp⟩ := Plan.statements_at {} front after l
    rw [← hes] at hp
    have hl := getD_offsets_of_front 0 (·.size) hp
    rw [Plan.codeSize_foldl] at hl
    simp only [Plan.target, Draft.locate, placeBetween, hfind]
    rw [Plan.statements_close, hl]
    simp [total]
  | datum d =>
    obtain ⟨d', hp⟩ := Plan.data_at {} front after d
    replace hp := hp.trans (Plan.data_grow_close _)
    rw [← hes] at hp
    have hl := getD_offsets_of_front (draft settings source).codeSize (·.size) hp
    rw [Plan.dataSize_foldl, codeSize_draft] at hl
    simp only [Plan.target, Draft.locate, placeBetween, hfind, ← hes]
    rw [codeSize_draft, hl]
    simp [total]

/-- A label at the end stands behind all data. -/
theorem lookup_of_end {name : String}
    (hes : ((entries settings source).foldl Plan.enter {}).held ≠ [])
    (ht : ((entries settings source).foldl Plan.enter {}).close.labels.target? name =
      some (.data ((entries settings source).foldl Plan.enter {}).data.length)) :
    (assemble settings source).labels.lookup name =
      some (placeBetween (entries settings source) [] : Int) := by
  obtain ⟨d, hd⟩ := Plan.data_close_of_held hes
  have hl := getD_offsets_of_front (draft settings source).codeSize (·.size)
    (List.prefix_refl (((entries settings source).foldl Plan.enter {}).data ++ [d]))
  rw [Plan.dataSize_foldl, codeSize_draft] at hl
  rw [lookup_labels, draft_plan, ht, hd, Option.map_some]
  simp only [Draft.locate]
  rw [codeSize_draft, hl]
  simp [placeBetween, total]

variable {front back : List Entry} {t : Token}

theorem named_labels_eq_nil {name : String} (h : ∀ e ∈ front, e.defines name = false) :
    named name (front.filterMap Entry.label?) = [] := by
  refine List.filter_eq_nil_iff.mpr fun u hu => ?_
  obtain ⟨e, he, hl⟩ := List.mem_filterMap.mp hu
  simpa [Entry.defines, hl] using h e he

/-- A name that no label has yet is free. -/
theorem free_of_front (hes : entries settings source = front ++ back) {name : String}
    (hfront : ∀ e ∈ front, e.defines name = false) (hf : name ≠ LabelTable.frameBufferName) :
    (front.foldl Plan.enter {}).labels.target? name = none := by
  have hplain : ∀ e ∈ front, e.Plain := fun e he =>
    plain_outline _ _ _ e (hes ▸ List.mem_append_left _ he)
  obtain ⟨bound, hlabels, hbinds⟩ := (Plan.binds_empty name).foldl hplain
  have hnone := named_labels_eq_nil hfront
  refine hbinds.target?_eq_none hf ?_
  rw [← List.nil_append (front.filterMap _), ← hlabels, named_append] at hnone
  exact (List.append_eq_nil_iff.mp hnone).1

theorem lookup_of_first (hes : entries settings source = front ++ .label t :: back)
    (hfront : ∀ e ∈ front, e.defines t.text = false) (hf : t.text ≠ LabelTable.frameBufferName) :
    (assemble settings source).labels.lookup t.text =
      some (placeBetween front (.label t :: back) : Int) := by
  have hfree : ((front.foldl Plan.enter {}).enter (.label t)).labels.target? t.text = none :=
    free_of_front hes hfront hf
  have hheld : t ∈ ((front.foldl Plan.enter {}).enter (.label t)).held :=
    List.mem_append_right _ (List.mem_singleton.mpr rfl)
  have hplan : (entries settings source).foldl Plan.enter {} =
      back.foldl Plan.enter ((front.foldl Plan.enter {}).enter (.label t)) := by
    rw [hes, List.foldl_append, List.foldl_cons]
  cases hn : back.find? (·.isElement) with
  | none =>
    have hb : ∀ x ∈ back, x.isElement = false := fun x hx => by
      simpa using List.find?_eq_none.mp hn x hx
    have hwaiting : ∀ x ∈ Entry.label t :: back, x.isElement = false :=
      List.forall_mem_cons.mpr ⟨rfl, hb⟩
    have hplace := placeBetween_of_waiting front [] hwaiting
    rw [← hes, List.append_nil] at hplace
    rw [← hplace]
    refine lookup_of_end ?_ ?_
    · rw [hplan]
      exact List.ne_nil_of_mem (Plan.held_foldl hb hheld)
    · rw [hplan]
      exact Plan.target_of_last_free hheld hfree hb
  | some e =>
    obtain ⟨he, between, after, rfl, hb⟩ := List.find?_eq_some_iff_append.mp hn
    have hb : ∀ x ∈ between, x.isElement = false := fun x hx => by simpa using hb x hx
    have hwaiting : ∀ x ∈ Entry.label t :: between, x.isElement = false :=
      List.forall_mem_cons.mpr ⟨rfl, hb⟩
    have hes' : entries settings source = (front ++ .label t :: between) ++ e :: after := by
      rw [hes, List.append_assoc, List.cons_append]
    rw [← List.cons_append, ← placeBetween_of_waiting front (e :: after) hwaiting]
    refine lookup_of_next hes' he ?_
    rw [hplan, Plan.target_of_free hheld hfree hb he, List.foldl_append, List.foldl_cons]

/-- A name stands for the place of its first label. -/
theorem lookup_eq (settings : Settings) (source name : String) :
    (assemble settings source).labels.lookup name =
      if name = LabelTable.frameBufferName then some (frameBuffer : Int)
      else ((entries settings source).findIdx? (·.defines name)).map fun i =>
        (placeBetween ((entries settings source).take i) ((entries settings source).drop i) :
          Int) := by
  by_cases hf : name = LabelTable.frameBufferName
  · rw [if_pos hf, lookup_labels, draft_plan, hf,
      Plan.labels_foldl (x := .address (UInt16.ofNat frameBuffer)) rfl]
    rfl
  rw [if_neg hf]
  cases hi : (entries settings source).findIdx? (·.defines name) with
  | none =>
    have hnone : ∀ e ∈ entries settings source, e.defines name = false := by simpa using hi
    have hnamed := named_labels_eq_nil hnone
    rw [labels_entries] at hnamed
    rw [lookup_labels, (binds_draft settings source name).target?_eq_none hf hnamed]
    rfl
  | some i =>
    obtain ⟨hlt, hdef, hfront⟩ := List.findIdx?_eq_some_iff_getElem.mp hi
    obtain ⟨t, ht, rfl⟩ := Entry.exists_of_defines hdef
    have hdrop : (entries settings source).drop i =
        .label t :: (entries settings source).drop (i + 1) := by
      rw [List.drop_eq_getElem_cons hlt, ht]
    have hes : entries settings source = (entries settings source).take i ++
        .label t :: (entries settings source).drop (i + 1) := by
      rw [← hdrop, List.take_append_drop]
    have htake : ∀ e ∈ (entries settings source).take i, e.defines t.text = false := by
      intro e he
      obtain ⟨j, hj, rfl⟩ := List.mem_take_iff_getElem.mp he
      simpa using hfront j (by omega)
    rw [lookup_of_first hes htake hf, Option.map_some, hdrop]

end

/-- A name is complained about once for each of its labels but the first, at these labels and in
their order; the machine itself has defined the frame buffer before all of them. It stands for the
place of its first label, wherever that is. -/
theorem defined_once (settings : Settings) (source name : String) :
    let outcome := assemble settings source
    let es := entries settings source
    let occurrences := named name (labelTokens settings source)
    let count := occurrences.length + if name = LabelTable.frameBufferName then 1 else 0
    let errors := outcome.diagnostics.filter (·.message = alreadyDefined name)
    errors.length = count - 1 ∧
      errors.map (·.token) =
        (if name = LabelTable.frameBufferName then occurrences else occurrences.tail) ∧
      outcome.labels.lookup name =
        if name = LabelTable.frameBufferName then some (frameBuffer : Int)
        else (es.findIdx? (·.defines name)).map fun i =>
          (placeBetween (es.take i) (es.drop i) : Int) := by
  intro outcome es occurrences count errors
  have htokens : errors.map (·.token) = late name (labelTokens settings source) :=
    (tokens_of_alreadyDefined name _).trans (repeats_draft settings source name)
  have hlength : errors.length = (late name (labelTokens settings source)).length := by
    rw [← htokens, List.length_map]
  unfold late at htokens hlength
  refine ⟨?_, htokens, lookup_eq settings source name⟩
  rw [hlength]
  by_cases hf : name = LabelTable.frameBufferName <;> simp [count, occurrences, hf]

/-- Labels wait across a note and bind to what is no instruction, to data and to the end. -/
example : (assemble {} "a: @line 1\na: frob\nb: nop\n.data\nc: a: \"x\"\nb:\nd:").labels =
    [("d", 4), ("c", 2), ("b", 0), ("a", 0), ("FRAME_BUFFER", 3072)] := by decide +kernel

end Minicomputer.Assembly
