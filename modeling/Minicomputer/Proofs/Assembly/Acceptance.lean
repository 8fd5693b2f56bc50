import Minicomputer.Proofs.Assembly.Grammar
import Minicomputer.Proofs.Assembly.Outline

/-!
# Accepted sources

What holds of the draft of a source that there is nothing to complain about, and what comes of its
outline: the code and the data of the program entry by entry.
-/

set_option autoImplicit false

namespace Minicomputer.Assembly

/-- The label that an operation names has an address, within memory where that is asked for. -/
def Resolved (labels : Addresses) (o : Operation) : Prop :=
  ∀ t bounded, o.label? = some (t, bounded) →
    ∃ a, labels.lookup t.text = some a ∧ (bounded = true → 0 ≤ a ∧ a ≤ lastAddress)

theorem labelDiagnostics_eq_nil_iff {labels : Addresses} {s : Statement} :
    s.labelDiagnostics labels = [] ↔ Resolved labels s.operation := by
  unfold Statement.labelDiagnostics Resolved
  rcases s.operation.label? with _ | ⟨t, bounded⟩
  · simp
  · rcases hl : labels.lookup t.text with _ | a
    · simp [hl]
    · cases bounded <;> simp [hl]

/-- An operation takes as many bytes as are set aside for it. -/
theorem encode_length_of_resolved {labels : Addresses} {o : Operation} (h : Resolved labels o) :
    (o.encode labels).length = o.size := by
  cases hi : o.instruction? labels with
  | some i => exact Operation.encode_length hi
  | none =>
    rw [Operation.encode, hi]
    cases o with
    | fixed | debug => cases hi
    | note | invalid => rfl
    | access op reg offset a | jump kind a =>
      cases a with
      | value => cases hi
      | label t =>
        obtain ⟨a, ha, -⟩ := h t _ rfl
        simp [Operation.instruction?, AddressOperand.resolve?, ha] at hi

/-! ### Plans that there is nothing to complain about -/

namespace Plan

def Clean (p : Plan) : Prop :=
  (∀ s ∈ p.statements, s.diagnostics = []) ∧ ∀ e ∈ p.data, e.diagnostics = []

theorem clean_of_enter {p : Plan} {e : Entry} (h : (p.enter e).Clean) : p.Clean := by
  obtain ⟨hs, hd⟩ := h
  cases e with
  | label => exact ⟨hs, hd⟩
  | note => exact ⟨fun s m => hs s (List.mem_append_left _ m), hd⟩
  | statement => exact ⟨fun s m => hs s (List.mem_append_left _ m), hd⟩
  | datum => exact ⟨hs, fun e m => hd e (List.mem_append_left _ m)⟩

theorem clean_of_foldl {p : Plan} {es : List Entry} (h : (es.foldl enter p).Clean) : p.Clean := by
  induction es generalizing p with
  | nil => exact h
  | cons e es ih => exact clean_of_enter (ih h)

theorem clean_of_close {p : Plan} (h : p.close.Clean) : p.Clean := by
  unfold close at h
  split at h
  · exact h
  · exact ⟨h.1, fun e m => h.2 e (List.mem_append_left _ m)⟩

end Plan

/-! ### Drafts that there is nothing to complain about -/

theorem overflow?_eq_none_iff {limit start : Nat} {elements : List (Token × Nat)}
    (hs : start ≤ limit) :
    overflow? limit start elements = none ↔ start + total (elements.map (·.2)) ≤ limit := by
  induction elements generalizing start with
  | nil => simpa [overflow?, total] using hs
  | cons e es ih =>
    obtain ⟨t, n⟩ := e
    rw [overflow?, List.map_cons, total]
    by_cases hn : limit < start + n
    · rw [if_pos hn]
      constructor
      · intro h
        cases h
      · intro h
        omega
    · rw [if_neg hn, ih (by omega), Nat.add_assoc]

theorem sizeDiagnostics_eq_nil_iff {d : Draft} : d.sizeDiagnostics = [] ↔ d.size ≤ memorySize := by
  have ho : overflow? memorySize 0 (d.statements.toList.map (fun s => (s.anchor, s.size)) ++
      d.data.toList.map fun e => (e.anchor, e.size)) = none ↔ _ :=
    overflow?_eq_none_iff (Nat.zero_le memorySize)
  rw [Nat.zero_add, List.map_append, total_append, List.map_map, List.map_map] at ho
  change _ ↔ d.size ≤ memorySize at ho
  rw [← ho]
  simp only [Draft.sizeDiagnostics]
  split
  · next h => simp [h]
  · next h => simp [h]

theorem inOrder_eq_nil_iff {ds : List Diagnostic} : Diagnostic.inOrder ds = [] ↔ ds = [] := by
  have hp : (Diagnostic.inOrder ds).Perm ds := List.mergeSort_perm ds Diagnostic.notAfter
  constructor
  · intro h
    rw [h] at hp
    exact hp.symm.eq_nil
  · rintro rfl
    exact hp.eq_nil

theorem pairwise_inOrder (ds : List Diagnostic) :
    (Diagnostic.inOrder ds).Pairwise fun d e => d.notAfter e = true := by
  refine List.pairwise_mergeSort (fun a b c hab hbc => ?_) (fun a b => ?_) ds <;>
    simp only [Diagnostic.notAfter, Bool.or_eq_true, Bool.and_eq_true, decide_eq_true_eq,
      beq_iff_eq] at * <;>
    omega

/-- There is nothing to complain about exactly where no line is complained about, every label is
resolved and the sizes of the elements fit in memory. -/
theorem diagnostics_eq_nil_iff {d : Draft} :
    d.diagnostics = [] ↔
      (∀ s ∈ d.statements.toList, s.diagnostics = [] ∧ Resolved d.addresses s.operation) ∧
        (∀ e ∈ d.data.toList, e.diagnostics = []) ∧ d.strays = [] ∧ d.size ≤ memorySize := by
  simp only [Draft.diagnostics, inOrder_eq_nil_iff, List.append_eq_nil_iff,
    List.flatMap_eq_nil_iff, labelDiagnostics_eq_nil_iff, sizeDiagnostics_eq_nil_iff, and_assoc]

/-- Nothing is wrong with a draft. -/
structure Accepted (d : Draft) : Prop where
  clean : d.plan.Clean
  resolved : ∀ s ∈ d.plan.statements, Resolved d.addresses s.operation
  /-- It fits as far as the assembler counts. -/
  fits : d.size ≤ memorySize

theorem accepted_of_diagnostics {d : Draft} (h : d.diagnostics = []) : Accepted d := by
  obtain ⟨hs, hd, -, hz⟩ := diagnostics_eq_nil_iff.mp h
  exact ⟨⟨fun s m => (hs s m).1, hd⟩, fun s m => (hs s m).2, hz⟩

variable {settings : Settings} {source : String} {p : Program}

theorem eq_program_of_some (h : (assemble settings source).program = some p) :
    p = program settings source (draft settings source) := by
  simp only [assemble] at h
  split at h
  · exact (Option.some.inj h).symm
  · cases h

theorem accepted_of_some (h : (assemble settings source).program = some p) :
    Accepted (draft settings source) :=
  accepted_of_diagnostics ((program_isSome_iff settings source).mp (by rw [h]; rfl))

/-! ### The bytes of an outline -/

namespace Entry

/-- The code that comes of an entry. -/
def codeBytes (labels : Addresses) : Entry → List Byte
  | .statement l => l.operation.encode labels
  | _ => []

/-- The data that comes of an entry. -/
def dataBytes : Entry → List Byte
  | .datum e => e.value.encode
  | _ => []

end Entry

theorem noteStatement_operation (name : Token) (operands : List Token) :
    (noteStatement name operands).operation = .invalid ∨
      ∃ n, (noteStatement name operands).operation = .note n := by
  simp only [noteStatement]
  cases Reading.note? name.text.toLower with
  | none => exact .inl rfl
  | some r => exact .inr ⟨_, rfl⟩

theorem encode_noteStatement (labels : Addresses) (name : Token) (operands : List Token) :
    (noteStatement name operands).operation.encode labels = [] := by
  obtain h | ⟨n, h⟩ := noteStatement_operation name operands <;> rw [h] <;> rfl

namespace Plan

/-- What each entry adds to something read off a plan, all of them add in turn. -/
theorem read_foldl {β : Type} (read : Plan → List β) {add : Entry → List β}
    (step : ∀ p e, read (p.enter e) = read p ++ add e) (p : Plan) (es : List Entry) :
    read (es.foldl enter p) = read p ++ es.flatMap add := by
  induction es generalizing p with
  | nil => simp
  | cons e es ih => rw [List.foldl_cons, ih, step, List.flatMap_cons, List.append_assoc]

theorem code_enter (labels : Addresses) (p : Plan) (e : Entry) :
    (p.enter e).statements.flatMap (·.operation.encode labels) =
      p.statements.flatMap (·.operation.encode labels) ++ e.codeBytes labels := by
  cases e <;> simp [enter, Entry.codeBytes, encode_noteStatement]

theorem code_foldl (labels : Addresses) (p : Plan) (es : List Entry) :
    (es.foldl enter p).statements.flatMap (·.operation.encode labels) =
      p.statements.flatMap (·.operation.encode labels) ++ es.flatMap (·.codeBytes labels) :=
  read_foldl (·.statements.flatMap (·.operation.encode labels)) (code_enter labels) p es

theorem data_enter (p : Plan) (e : Entry) :
    (p.enter e).data.flatMap (·.value.encode) =
      p.data.flatMap (·.value.encode) ++ e.dataBytes := by
  cases e <;> simp [enter, Entry.dataBytes]

theorem data_foldl (p : Plan) (es : List Entry) :
    (es.foldl enter p).data.flatMap (·.value.encode) =
      p.data.flatMap (·.value.encode) ++ es.flatMap (·.dataBytes) :=
  read_foldl (·.data.flatMap (·.value.encode)) data_enter p es

theorem statements_close (p : Plan) : p.close.statements = p.statements := by
  unfold close
  split <;> rfl

theorem data_close (p : Plan) :
    p.close.data.flatMap (·.value.encode) = p.data.flatMap (·.value.encode) := by
  unfold close
  split
  · rfl
  · simp [DataValue.encode]

/-- What is entered stays. -/
theorem grow_enter (p : Plan) (e : Entry) :
    p.statements <+: (p.enter e).statements ∧ p.data <+: (p.enter e).data := by
  cases e with
  | label => exact ⟨List.prefix_refl _, List.prefix_refl _⟩
  | note | statement => exact ⟨List.prefix_append _ _, List.prefix_refl _⟩
  | datum => exact ⟨List.prefix_refl _, List.prefix_append _ _⟩

theorem grow_foldl (p : Plan) (es : List Entry) :
    p.statements <+: (es.foldl enter p).statements ∧ p.data <+: (es.foldl enter p).data := by
  induction es generalizing p with
  | nil => exact ⟨List.prefix_refl _, List.prefix_refl _⟩
  | cons e es ih =>
    obtain ⟨hs, hd⟩ := grow_enter p e
    obtain ⟨hs', hd'⟩ := ih (p.enter e)
    exact ⟨hs.trans hs', hd.trans hd'⟩

/-- The statement of a line stands behind those of the entries in front of it. -/
theorem statements_at (p : Plan) (front after : List Entry) (l : TextLine) :
    ∃ s, (front.foldl enter p).statements ++ [s] <+:
      ((front ++ .statement l :: after).foldl enter p).statements := by
  rw [List.foldl_append, List.foldl_cons]
  exact ⟨_, (grow_foldl ((front.foldl enter p).enter (.statement l)) after).1⟩

theorem data_at (p : Plan) (front after : List Entry) (d : Datum) :
    ∃ d', (front.foldl enter p).data ++ [d'] <+:
      ((front ++ .datum d :: after).foldl enter p).data := by
  rw [List.foldl_append, List.foldl_cons]
  exact ⟨_, (grow_foldl ((front.foldl enter p).enter (.datum d)) after).2⟩

/-- Every line of the text segment makes a statement. -/
theorem statement_mem {p : Plan} {es : List Entry} {l : TextLine} (h : Entry.statement l ∈ es) :
    ∃ ds, ⟨l.first, l.operation, ds ++ l.complaints⟩ ∈ (es.foldl enter p).statements := by
  obtain ⟨before, after, rfl⟩ := List.append_of_mem h
  rw [List.foldl_append, List.foldl_cons]
  exact ⟨_, (grow_foldl _ after).1.subset
    (List.mem_append_right _ (List.mem_singleton.mpr rfl))⟩

end Plan

/-- The code of a program, entry by entry. -/
theorem code_of_some (h : (assemble settings source).program = some p) :
    p.code = (entries settings source).flatMap
      (·.codeBytes (assemble settings source).labels) := by
  have hd : (draft settings source).statements.toList =
      ((entries settings source).foldl Plan.enter {}).statements := by
    rw [← Plan.statements_close, ← draft_plan]
    rfl
  rw [eq_program_of_some h]
  show (draft settings source).statements.toList.flatMap _ = _
  rw [hd, Plan.code_foldl]
  rfl

/-- The data of a program, entry by entry. -/
theorem data_of_some (h : (assemble settings source).program = some p) :
    p.data = (entries settings source).flatMap (·.dataBytes) := by
  rw [eq_program_of_some h]
  show (draft settings source).plan.data.flatMap _ = _
  rw [draft_plan, Plan.data_close, Plan.data_foldl]
  rfl

theorem statements_of_draft (settings : Settings) (source : String) :
    (draft settings source).plan.statements =
      ((entries settings source).foldl Plan.enter {}).statements := by
  rw [draft_plan, Plan.statements_close]

/-- In an accepted source every line of the text segment stands for an operation, and the label that
it names is known. -/
theorem stands_of_accepted (h : Accepted (draft settings source)) {l : TextLine}
    (hl : Entry.statement l ∈ entries settings source) :
    Stands l.debugStrings l.first l.operands l.operation ∧
      Resolved (assemble settings source).labels l.operation := by
  obtain ⟨ds, hm⟩ := Plan.statement_mem (p := {}) hl
  rw [← statements_of_draft] at hm
  have hc : ds ++ l.complaints = [] := h.clean.1 _ hm
  refine ⟨operation_eq_iff.mp ?_, h.resolved _ hm⟩
  exact Prod.ext rfl (List.append_eq_nil_iff.mp hc).2

/-! ### Texts -/

/-- The values of the lines of the data segment. -/
def dataValues (es : List Entry) : List DataValue :=
  es.filterMap fun
    | .datum e => some e.value
    | _ => none

/-- Every text with its NUL is short enough for its size to be a word. -/
def TextsCounted (vs : List DataValue) : Prop :=
  ∀ s, .string s ∈ vs → (bytesOfText s).length < 65535

namespace Plan

theorem values_foldl (p : Plan) (es : List Entry) :
    (es.foldl enter p).data.map (·.value) = p.data.map (·.value) ++ dataValues es := by
  induction es generalizing p with
  | nil => simp [dataValues]
  | cons e es ih =>
    rw [List.foldl_cons, ih]
    cases e <;> simp [enter, dataValues]

theorem mem_values_close {p : Plan} {v : DataValue} (h : v ∈ p.close.data.map (·.value)) :
    v ∈ p.data.map (·.value) ∨ v = .empty := by
  unfold close at h
  split at h
  · exact .inl h
  · simpa [or_comm] using h

end Plan

theorem data_eq_dataValues (h : (assemble settings source).program = some p) :
    p.data = (dataValues (entries settings source)).flatMap (·.encode) := by
  rw [data_of_some h]
  induction entries settings source with
  | nil => rfl
  | cons e es ih =>
    rw [List.flatMap_cons, ih]
    cases e <;> simp [dataValues, Entry.dataBytes]

theorem textsCounted_of_fits (h : (assemble settings source).program = some p)
    (hs : p.imageSize ≤ memorySize) : TextsCounted (dataValues (entries settings source)) := by
  intro s hm
  -- A text whose size is no word does not fit in memory even alone.
  obtain ⟨front, after, hv⟩ := List.append_of_mem hm
  have hd := congrArg List.length (data_eq_dataValues h)
  simp only [hv, List.flatMap_append, List.flatMap_cons, List.length_append, DataValue.encode,
    List.length_singleton] at hd
  simp only [Program.imageSize, memorySize] at hs
  omega

theorem datum_length_of_counted (ht : TextsCounted (dataValues (entries settings source))) :
    ∀ e ∈ (draft settings source).plan.data, e.value.encode.length = e.size := by
  intro e he
  refine DataValue.encode_length _ fun s hs => ht s ?_
  have hv : e.value ∈ (draft settings source).plan.data.map (·.value) := List.mem_map_of_mem he
  rw [draft_plan, hs] at hv
  obtain hv | hv := Plan.mem_values_close hv
  · simpa [Plan.values_foldl] using hv
  · cases hv

end Minicomputer.Assembly
