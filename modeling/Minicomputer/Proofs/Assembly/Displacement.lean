import Minicomputer.Proofs.Assembly.Acceptance
import Minicomputer.Proofs.Assembly.Likeness
import Minicomputer.Proofs.Token.Replacement

/-!
# Drafts of displaced lines

Text that moves along its lines is read as before. Drafts of tokens on the same lines differ in the
places of their tokens alone, and then they are complained about on the same lines and make the same
code.
-/

set_option autoImplicit false

namespace Minicomputer

theorem Token.Moved.alike {away home : Nat} {t u : Token} (h : Moved away home t u) : t.Alike u :=
  ⟨h.kind, h.text, h.line⟩

/-- A program with another text for its source. -/
def Program.withSource (p : Program) (source : String) : Program :=
  { p with debugInfo := p.debugInfo.map fun i => { i with assemblySource := source } }

namespace Assembly

open Token (Moved)

/-! ### Elements and drafts that are alike -/

structure Statement.Alike (s s' : Statement) : Prop where
  anchor : s.anchor.line = s'.anchor.line
  operation : s.operation.Alike s'.operation
  diagnostics : SameLines s.diagnostics s'.diagnostics

structure Datum.Alike (e e' : Datum) : Prop where
  anchor : e.anchor.line = e'.anchor.line
  value : e.value = e'.value
  diagnostics : SameLines e.diagnostics e'.diagnostics

structure Draft.Alike (d d' : Draft) : Prop where
  segment : d.segment = d'.segment
  statements : List.Forall₂ Statement.Alike d.statements.toList d'.statements.toList
  data : List.Forall₂ Datum.Alike d.data.toList d'.data.toList
  labels : d.labels = d'.labels
  held : List.Forall₂ Token.Alike d.held d'.held
  graphics : d.graphics = d'.graphics
  debugStrings : d.debugStrings = d'.debugStrings
  strays : SameLines d.strays d'.strays

theorem Statement.Alike.refl (s : Statement) : s.Alike s := ⟨rfl, .same _, rfl⟩

theorem Datum.Alike.refl (e : Datum) : e.Alike e := ⟨rfl, rfl, rfl⟩

theorem Draft.Alike.refl (d : Draft) : d.Alike d where
  segment := rfl
  statements := List.forall₂_same.mpr fun s _ => .refl s
  data := List.forall₂_same.mpr fun e _ => .refl e
  labels := rfl
  held := List.forall₂_same.mpr fun t _ => .refl t
  graphics := rfl
  debugStrings := rfl
  strays := rfl

section

variable {α β γ : Type} {R : α → β → Prop} {xs : List α} {ys : List β}

theorem rel_takeWhile {p : α → Bool} {q : β → Bool} (hp : ∀ a b, R a b → p a = q b)
    (h : List.Forall₂ R xs ys) : List.Forall₂ R (xs.takeWhile p) (ys.takeWhile q) := by
  induction h with
  | nil => exact .nil
  | cons hr _ ih =>
    rw [List.takeWhile_cons, List.takeWhile_cons, hp _ _ hr]
    split
    · exact .cons hr ih
    · exact .nil

theorem rel_dropWhile {p : α → Bool} {q : β → Bool} (hp : ∀ a b, R a b → p a = q b)
    (h : List.Forall₂ R xs ys) : List.Forall₂ R (xs.dropWhile p) (ys.dropWhile q) := by
  induction h with
  | nil => exact .nil
  | cons hr h ih =>
    rw [List.dropWhile_cons, List.dropWhile_cons, hp _ _ hr]
    split
    · exact ih
    · exact .cons hr h

theorem rel_getLast? (h : List.Forall₂ R xs ys) : Option.Rel R xs.getLast? ys.getLast? := by
  rw [List.getLast?_eq_head?_reverse, List.getLast?_eq_head?_reverse]
  exact rel_head? (List.rel_reverse h)

theorem rel_push {xs : Array α} {ys : Array β} (h : List.Forall₂ R xs.toList ys.toList) {a : α}
    {b : β} (hr : R a b) : List.Forall₂ R (xs.push a).toList (ys.push b).toList := by
  rw [Array.toList_push, Array.toList_push]
  exact List.rel_append h (.cons hr .nil)

/-- What is the same for related elements is the same for related lists. -/
theorem map_eq_of_forall₂ {f : α → γ} {g : β → γ} (hf : ∀ a b, R a b → f a = g b)
    (h : List.Forall₂ R xs ys) : xs.map f = ys.map g := by
  induction h with
  | nil => rfl
  | cons hr _ ih => rw [List.map_cons, List.map_cons, hf _ _ hr, ih]

theorem flatMap_eq_of_forall₂ {f : α → List γ} {g : β → List γ} (hf : ∀ a b, R a b → f a = g b)
    (h : List.Forall₂ R xs ys) : xs.flatMap f = ys.flatMap g := by
  rw [List.flatMap_def, List.flatMap_def, map_eq_of_forall₂ hf h]

theorem SameLines.flatMap {f : α → List Diagnostic} {g : β → List Diagnostic}
    (hf : ∀ a b, R a b → SameLines (f a) (g b)) (h : List.Forall₂ R xs ys) :
    SameLines (xs.flatMap f) (ys.flatMap g) := by
  unfold SameLines
  rw [List.map_flatMap, List.map_flatMap]
  exact flatMap_eq_of_forall₂ hf h

end

/-! ### Lines that are moved -/

section

variable {away home : Nat} {first first' : Token} {others others' line line' : List Token}

theorem alike_of_moved (h : List.Forall₂ (Moved away home) line line') :
    List.Forall₂ Token.Alike line line' := h.imp fun _ _ => Moved.alike

theorem directive?_moved (mark : TokenKind) (h : List.Forall₂ (Moved away home) line line') :
    directive? mark line = directive? mark line' := by
  obtain _ | ⟨ht, _ | ⟨hu, _⟩⟩ := h
  · rfl
  · rfl
  · rw [directive?, directive?, ht.kind, hu.kind, hu.text, ht.adjacent hu]

theorem segment?_moved (h : List.Forall₂ (Moved away home) line line') :
    segment? line = segment? line' := by
  rw [segment?, segment?, directive?_moved .dot h]

theorem bind_alike (table : LabelTable) (target : LabelTarget) {ts us : List Token}
    (h : List.Forall₂ Token.Alike ts us) :
    (Draft.bind table target ts).1 = (Draft.bind table target us).1 ∧
      SameLines (Draft.bind table target ts).2 (Draft.bind table target us).2 := by
  induction h generalizing table with
  | nil => exact ⟨rfl, rfl⟩
  | cons ht _ ih =>
    unfold Draft.bind
    rw [ht.text]
    split
    · exact ih _
    · exact ⟨(ih table).1, (ih table).2.cons ht.line _ _⟩

theorem implied_alike (hline : first.line = first'.line) (implied : Option String) :
    List.Forall₂ Token.Alike (implied.map (first.inPlace .identifier)).toList
      (implied.map (first'.inPlace .identifier)).toList := by
  cases implied with
  | none => exact .nil
  | some text => exact .cons ⟨rfl, rfl, hline⟩ .nil

/-- Operations that are alike, with complaints about the same lines. -/
def ReadAlike (o o' : Operation × List Diagnostic) : Prop :=
  o.1.Alike o'.1 ∧ SameLines o.2 o'.2

theorem operation_alike (n : Nat) (hf : first.Alike first')
    (ho : List.Forall₂ Token.Alike others others') :
    ReadAlike (Draft.operation n first others) (Draft.operation n first' others') := by
  unfold Draft.operation
  rw [hf.kind, hf.text]
  split
  · exact ⟨.same _, sameLines_singleton hf.line _ _⟩
  · split
    · exact ⟨.same _, sameLines_singleton hf.line _ _⟩
    · exact Reading.all_alike (Reading.steady_operation n _).agree hf.line
        (List.rel_append (implied_alike hf.line _) ho)

/-- The debug strings behind an operation, where `n` counts those before it. -/
theorem debugStrings_alike (n : Nat) {o o' : Operation} : o.Alike o' →
    (match o with | .debug .. => n + 1 | _ => n) =
      match o' with | .debug .. => n + 1 | _ => n := by
  rintro ⟨⟩ <;> rfl

variable {d d' : Draft}

theorem addStatement_alike (h : d.Alike d') {labels labels' : List Token}
    (hl : List.Forall₂ Token.Alike labels labels') (hline : first.line = first'.line)
    (ho : ReadAlike (Draft.operation d.debugStrings first others)
      (Draft.operation d.debugStrings first' others')) :
    (d.addStatement labels first others).Alike (d'.addStatement labels' first' others') := by
  have hsize : d.statements.size = d'.statements.size := h.statements.length_eq
  obtain ⟨htable, hduplicates⟩ := bind_alike d.labels (.instruction d.statements.size) hl
  unfold Draft.addStatement
  rw [← h.labels, ← hsize, ← h.debugStrings]
  constructor
  · exact h.segment
  · exact rel_push h.statements ⟨hline, ho.1, hduplicates.append ho.2⟩
  · exact h.data
  · exact htable
  · exact h.held
  · exact h.graphics
  · exact debugStrings_alike _ ho.1
  · exact h.strays

theorem noteStatement_alike (hf : first.Alike first')
    (ho : List.Forall₂ Token.Alike others others') :
    (noteStatement first others).Alike (noteStatement first' others') := by
  simp only [noteStatement, hf.text]
  cases hr : Reading.note? first'.text.toLower with
  | none => exact ⟨hf.line, .same _, sameLines_singleton hf.line _ _⟩
  | some r =>
    obtain ⟨hn, hlines⟩ := Reading.all_alike (Reading.blind_note hr).agree hf.line ho
    refine ⟨hf.line, ?_, hlines⟩
    dsimp only
    rw [hn]
    exact .same _

theorem addNote_alike (h : d.Alike d') (hf : first.Alike first')
    (ho : List.Forall₂ Token.Alike others others') :
    (d.addNote first others).Alike (d'.addNote first' others') := by
  refine { h with statements := ?_ }
  exact rel_push h.statements (noteStatement_alike hf ho)

/-- The same value and pictures, with complaints about the same lines. -/
structure ValueAlike (v v' : DataValue × List (List Byte) × List Diagnostic) : Prop where
  value : v.1 = v'.1
  graphics : v.2.1 = v'.2.1
  diagnostics : SameLines v.2.2 v'.2.2

theorem readImage_alike (images : String → Except FileError (List Byte))
    (graphics : List (List Byte)) (hline : first.line = first'.line) (path : String) :
    (Draft.readImage images graphics first path).1 =
        (Draft.readImage images graphics first' path).1 ∧
      (Draft.readImage images graphics first path).2.1 =
          (Draft.readImage images graphics first' path).2.1 ∧
        SameLines (Draft.readImage images graphics first path).2.2
          (Draft.readImage images graphics first' path).2.2 := by
  unfold Draft.readImage
  cases images path with
  | ok bytes => exact ⟨rfl, rfl, rfl⟩
  | error e => exact ⟨rfl, rfl, sameLines_singleton hline _ _⟩

theorem value_alike (images : String → Except FileError (List Byte)) (graphics : List (List Byte))
    (hf : Moved away home first first') (ho : List.Forall₂ (Moved away home) others others') :
    ValueAlike (Draft.value images graphics first others)
      (Draft.value images graphics first' others') := by
  have hline := hf.line
  have hs := alike_of_moved ho
  have hread {α : Type} (r : Reading α) [hr : Reading.Blind r] {ts us : List Token}
      (h : List.Forall₂ Token.Alike ts us) := Reading.all_alike hr.agree hline h
  have hword := hread Reading.word (.cons hf.alike hs)
  have hcount := hread (Reading.integer 0 4096) (rel_tail hs)
  have hnone := hread (pure ()) hs
  have hpath := hread Reading.string (rel_tail hs)
  unfold Draft.value
  rw [directive?_moved .dot (.cons hf ho), hf.kind, hf.text]
  dsimp only
  split
  · refine ⟨rfl, rfl, SameLines.append ?_ hnone.2⟩
    split
    · rfl
    · exact sameLines_singleton hline _ _
  · exact ⟨congrArg DataValue.word hword.1, rfl, hword.2⟩
  · exact ⟨congrArg DataValue.word hword.1, rfl, hword.2⟩
  · exact ⟨congrArg DataValue.word hword.1, rfl, hword.2⟩
  · exact ⟨congrArg DataValue.word hword.1, rfl, hword.2⟩
  · split
    · exact ⟨congrArg (fun n => DataValue.words n.toNat) hcount.1, rfl, hcount.2⟩
    · exact ⟨congrArg (fun n => DataValue.bytes n.toNat) hcount.1, rfl, hcount.2⟩
    · rw [hpath.1]
      obtain ⟨hindex, hgraphics, hunreadable⟩ := readImage_alike images graphics hline
        (Reading.all first' others'.tail Reading.string).1
      exact ⟨congrArg DataValue.image hindex, hgraphics, hunreadable.append hpath.2⟩
    · exact ⟨rfl, rfl, sameLines_singleton hline _ _⟩
    · exact ⟨rfl, rfl, hnone.2.cons hline _ _⟩

theorem addDatum_alike (images : String → Except FileError (List Byte)) (h : d.Alike d')
    {labels labels' : List Token} (hl : List.Forall₂ Token.Alike labels labels')
    (hf : Moved away home first first') (ho : List.Forall₂ (Moved away home) others others') :
    (d.addDatum images labels first others).Alike (d'.addDatum images labels' first' others') := by
  have hsize : d.data.size = d'.data.size := h.data.length_eq
  obtain ⟨htable, hduplicates⟩ := bind_alike d.labels (.data d.data.size) hl
  obtain ⟨hvalue, hgraphics, hcomplaints⟩ := value_alike images d.graphics hf ho
  unfold Draft.addDatum
  rw [← h.labels, ← hsize, ← h.graphics]
  constructor
  · exact h.segment
  · exact h.statements
  · exact rel_push h.data ⟨hf.line, hvalue, hduplicates.append hcomplaints⟩
  · exact htable
  · exact h.held
  · exact hgraphics
  · exact h.debugStrings
  · exact h.strays

/-- Adds a statement or data, by the segment. -/
def Draft.addElement (images : String → Except FileError (List Byte)) (d : Draft)
    (labels : List Token) (first : Token) (others : List Token) : Draft :=
  match d.segment with
  | .text => d.addStatement labels first others
  | .data => d.addDatum images labels first others

theorem addElement_alike (images : String → Except FileError (List Byte)) (h : d.Alike d')
    {labels labels' : List Token} (hl : List.Forall₂ Token.Alike labels labels')
    (hf : Moved away home first first') (ho : List.Forall₂ (Moved away home) others others') :
    (d.addElement images labels first others).Alike
      (d'.addElement images labels' first' others') := by
  unfold Draft.addElement
  rw [h.segment]
  split
  · exact addStatement_alike h hl hf.line (operation_alike _ hf.alike (alike_of_moved ho))
  · exact addDatum_alike images h hl hf ho

/-- A line is read alike wherever its tokens stand on it. -/
theorem addLine_alike (images : String → Except FileError (List Byte)) (h : d.Alike d')
    (hl : List.Forall₂ (Moved away home) line line') :
    (d.addLine images line).Alike (d'.addLine images line') := by
  have hlabels : List.Forall₂ Token.Alike (d.held ++ line.takeWhile (·.kind = .label))
      (d'.held ++ line'.takeWhile (·.kind = .label)) :=
    List.rel_append h.held (rel_takeWhile (fun _ _ ht => by rw [ht.kind]) (alike_of_moved hl))
  have hrest : List.Forall₂ (Moved away home) (line.dropWhile (·.kind = .label))
      (line'.dropWhile (·.kind = .label)) := rel_dropWhile (fun _ _ ht => by rw [ht.kind]) hl
  unfold Draft.addLine
  rw [segment?_moved hl]
  cases segment? line' with
  | some segment =>
    have hleft := List.forall₂_drop 2 (alike_of_moved hl)
    exact { h with
      segment := rfl
      strays := h.strays.append (sameLines_option (rel_head? hleft) _) }
  | none =>
    dsimp only
    generalize line.dropWhile _ = rest, line'.dropWhile _ = rest' at hrest
    cases hrest with
    | nil => exact { h with held := hlabels }
    | @cons first first' others others' hf ho =>
      have hemptied : ({ d with held := [] } : Draft).Alike { d' with held := [] } :=
        { h with held := .nil }
      have helement := addElement_alike images hemptied hlabels hf ho
      have hwaiting : ({ d with held := d.held ++ line.takeWhile (·.kind = .label) } : Draft).Alike
          { d' with held := d'.held ++ line'.takeWhile (·.kind = .label) } :=
        { h with held := hlabels }
      dsimp only
      rw [directive?_moved .at (.cons hf ho)]
      cases directive? .at (first' :: others') with
      | none => exact helement
      | some name =>
        obtain _ | ⟨hn, ho⟩ := ho
        · exact helement
        · exact addNote_alike hwaiting hn.alike (alike_of_moved ho)

theorem foldl_addLine_alike (images : String → Except FileError (List Byte)) (h : d.Alike d')
    {ls ls' : List (List Token)} (hl : List.Forall₂ (List.Forall₂ (Moved away home)) ls ls') :
    (ls.foldl (Draft.addLine images) d).Alike (ls'.foldl (Draft.addLine images) d') := by
  induction hl generalizing d d' with
  | nil => exact h
  | cons hline _ ih => exact ih (addLine_alike images h hline)

theorem close_alike (h : d.Alike d') : d.close.Alike d'.close := by
  have hsize : d.data.size = d'.data.size := h.data.length_eq
  obtain ⟨htable, hduplicates⟩ := bind_alike d.labels (.data d.data.size) h.held
  unfold Draft.close
  have hlast := rel_getLast? h.held
  generalize d.held.getLast? = last, d'.held.getLast? = last' at hlast
  cases hlast with
  | none => exact h
  | some hlast =>
    rw [← h.labels, ← hsize]
    refine { h with labels := htable, held := .nil, data := ?_ }
    exact rel_push h.data ⟨hlast.line, rfl, hduplicates⟩

end

/-! ### What is made of drafts that are alike -/

theorem resolve?_alike {a b : AddressOperand} (h : a.Alike b) (labels : Addresses) :
    a.resolve? labels = b.resolve? labels := by
  cases h with
  | value a => rfl
  | label ht => rw [AddressOperand.resolve?, AddressOperand.resolve?, ht.text]

theorem instruction?_alike {o o' : Operation} (h : o.Alike o') (labels : Addresses) :
    o.instruction? labels = o'.instruction? labels := by
  cases h with
  | same => rfl
  | access op reg offset ha =>
    rw [Operation.instruction?, Operation.instruction?, resolve?_alike ha labels]
  | jump kind ha => rw [Operation.instruction?, Operation.instruction?, resolve?_alike ha labels]

theorem size_alike {o o' : Operation} (h : o.Alike o') : o.size = o'.size := by
  cases h <;> rfl

theorem label?_alike {o o' : Operation} (h : o.Alike o') :
    Option.Rel (fun p q : Token × Bool => p.1.Alike q.1 ∧ p.2 = q.2) o.label? o'.label? := by
  have hsame (p? : Option (Token × Bool)) :
      Option.Rel (fun p q : Token × Bool => p.1.Alike q.1 ∧ p.2 = q.2) p? p? := by
    cases p? with
    | none => exact .none
    | some p => exact .some ⟨.refl p.1, rfl⟩
  cases h with
  | same => exact hsame _
  | access op reg offset ha | jump kind ha =>
    cases ha with
    | value a => exact .none
    | label ht => exact .some ⟨ht, rfl⟩

theorem labelDiagnostics_alike {s s' : Statement} (h : s.Alike s') (labels : Addresses) :
    SameLines (s.labelDiagnostics labels) (s'.labelDiagnostics labels) := by
  have hlabel := label?_alike h.operation
  unfold Statement.labelDiagnostics
  generalize s.operation.label? = p?, s'.operation.label? = q? at hlabel
  rcases hlabel with @⟨⟨t, bounded⟩, ⟨u, bounded'⟩, ht, hbounded⟩ | _
  · dsimp only at *
    rw [ht.text, hbounded]
    split
    · exact sameLines_singleton ht.line _ _
    · split
      · exact sameLines_singleton ht.line _ _
      · rfl
  · rfl

theorem overflow?_alike (limit start : Nat) {es es' : List (Token × Nat)}
    (h : List.Forall₂ (fun e e' => e.1.line = e'.1.line ∧ e.2 = e'.2) es es') :
    Option.Rel (fun t u : Token => t.line = u.line) (overflow? limit start es)
      (overflow? limit start es') := by
  induction h generalizing start with
  | nil => exact .none
  | @cons e e' es es' he _ ih =>
    obtain ⟨hline, hsize⟩ := he
    unfold overflow?
    rw [hsize]
    split
    · exact .some hline
    · exact ih _

theorem inOrder_alike {ds es : List Diagnostic} (h : SameLines ds es) :
    SameLines (Diagnostic.inOrder ds) (Diagnostic.inOrder es) := by
  have hperm (ds : List Diagnostic) :
      ((Diagnostic.inOrder ds).map (·.token.line)).Perm (ds.map (·.token.line)) :=
    (List.mergeSort_perm ds Diagnostic.notAfter).map _
  have hsorted (ds : List Diagnostic) :
      ((Diagnostic.inOrder ds).map (·.token.line)).Pairwise (· ≤ ·) := by
    refine List.pairwise_map.mpr ((pairwise_inOrder ds).imp fun {d e} hde => ?_)
    simp only [Diagnostic.notAfter, Bool.or_eq_true, Bool.and_eq_true, decide_eq_true_eq,
      beq_iff_eq] at hde
    omega
  refine List.Perm.eq_of_pairwise (fun a b _ _ => Nat.le_antisymm) (hsorted ds) (hsorted es) ?_
  exact (hperm ds).trans ((List.Perm.of_eq h).trans (hperm es).symm)

namespace Draft

variable {d d' : Draft}

theorem Alike.statementSizes (h : d.Alike d') : d.statementSizes = d'.statementSizes :=
  map_eq_of_forall₂ (fun _ _ hs => size_alike hs.operation) h.statements

theorem Alike.dataSizes (h : d.Alike d') : d.dataSizes = d'.dataSizes :=
  map_eq_of_forall₂ (fun _ _ he => congrArg DataValue.size he.value) h.data

theorem Alike.codeSize (h : d.Alike d') : d.codeSize = d'.codeSize :=
  congrArg total h.statementSizes

/-- Labels have the same addresses. -/
theorem Alike.addresses (h : d.Alike d') : d.addresses = d'.addresses := by
  rw [Draft.addresses, Draft.addresses, h.labels, h.codeSize, h.statementSizes, h.dataSizes]

theorem Alike.code (h : d.Alike d') : d.code = d'.code := by
  rw [Draft.code, Draft.code, h.addresses]
  refine flatMap_eq_of_forall₂ (fun s s' hs => ?_) h.statements
  rw [Operation.encode, Operation.encode, instruction?_alike hs.operation]

theorem Alike.dataBytes (h : d.Alike d') : d.dataBytes = d'.dataBytes :=
  flatMap_eq_of_forall₂ (fun _ _ he => congrArg DataValue.encode he.value) h.data

theorem Alike.sizeDiagnostics (h : d.Alike d') :
    SameLines d.sizeDiagnostics d'.sizeDiagnostics := by
  have helements : List.Forall₂ (fun e e' : Token × Nat => e.1.line = e'.1.line ∧ e.2 = e'.2)
      (d.statements.toList.map (fun s => (s.anchor, s.size)) ++
        d.data.toList.map fun e => (e.anchor, e.size))
      (d'.statements.toList.map (fun s => (s.anchor, s.size)) ++
        d'.data.toList.map fun e => (e.anchor, e.size)) := by
    refine List.rel_append (List.rel_map ?_ h.statements) (List.rel_map ?_ h.data)
    · exact fun s s' hs => ⟨hs.anchor, size_alike hs.operation⟩
    · exact fun e e' he => ⟨he.anchor, congrArg DataValue.size he.value⟩
  have hoverflow := overflow?_alike memorySize 0 helements
  unfold Draft.sizeDiagnostics
  dsimp only
  generalize overflow? memorySize 0 (d.statements.toList.map _ ++ _) = t?,
    overflow? memorySize 0 (d'.statements.toList.map _ ++ _) = u? at hoverflow
  cases hoverflow with
  | none => rfl
  | some hline => exact sameLines_singleton hline _ _

/-- The same number of complaints, on the same lines. -/
theorem Alike.diagnostics (h : d.Alike d') : SameLines d.diagnostics d'.diagnostics := by
  refine inOrder_alike ?_
  rw [h.addresses]
  refine ((SameLines.append ?_ ?_).append h.strays).append h.sizeDiagnostics
  · exact .flatMap (fun s s' hs => hs.diagnostics.append (labelDiagnostics_alike hs _))
      h.statements
  · exact .flatMap (fun e e' he => he.diagnostics) h.data

end Draft

theorem pass_alike (s : Scope) {statement statement' : Statement}
    (h : statement.Alike statement') : s.pass statement = s.pass statement' := by
  obtain ⟨anchor, operation, _⟩ := statement
  obtain ⟨anchor', operation', _⟩ := statement'
  obtain ⟨hline, ho, -⟩ := h
  dsimp only at hline ho
  unfold Scope.pass Statement.size
  dsimp only
  rw [hline]
  cases ho <;> rfl

theorem ofStatements_alike {ss ss' : List Statement} (h : List.Forall₂ Statement.Alike ss ss') :
    Scope.ofStatements ss = Scope.ofStatements ss' := by
  refine List.rel_foldl (P := Eq) ?_ rfl h
  rintro s _ rfl statement statement' hs
  exact pass_alike s hs

theorem debugTexts_alike {ss ss' : List Statement} (h : List.Forall₂ Statement.Alike ss ss') :
    debugTexts ss = debugTexts ss' := by
  unfold debugTexts
  induction h with
  | nil => rfl
  | @cons s s' ss ss' hs _ ih =>
    obtain ⟨anchor, operation, _⟩ := s
    obtain ⟨anchor', operation', _⟩ := s'
    obtain ⟨-, ho, -⟩ := hs
    dsimp only at ho
    rw [List.filterMap_cons, List.filterMap_cons, ih]
    cases ho <;> rfl

/-- The notes for debugging differ in the source alone. -/
theorem debugInfo_alike (settings : Settings) {d d' : Draft} (h : d.Alike d')
    (source source' : String) :
    debugInfo settings source' d' =
      { debugInfo settings source d with assemblySource := source' } := by
  simp only [debugInfo, ofStatements_alike h.statements, debugTexts_alike h.statements]

theorem program_alike (settings : Settings) {d d' : Draft} (h : d.Alike d')
    (source source' : String) :
    program settings source' d' = (program settings source d).withSource source' := by
  simp only [program, Program.withSource, debugInfo_alike settings h source source', h.code,
    h.dataBytes, h.graphics, Option.map_some]

/-- Sources with drafts that are alike are complained about on the same lines, and have the same
labels and programs that differ in the source alone. -/
theorem assemble_alike (settings : Settings) {source source' : String}
    (h : (draft settings source).Alike (draft settings source')) :
    SameLines (assemble settings source).diagnostics (assemble settings source').diagnostics ∧
      (assemble settings source').labels = (assemble settings source).labels ∧
        (assemble settings source').program =
          (assemble settings source).program.map (·.withSource source') := by
  have hempty : (draft settings source').diagnostics.isEmpty =
      (draft settings source).diagnostics.isEmpty := by
    have hlength := congrArg List.isEmpty h.diagnostics
    rwa [List.isEmpty_map, List.isEmpty_map, eq_comm] at hlength
  refine ⟨h.diagnostics, h.addresses.symm, ?_⟩
  simp only [assemble, hempty, program_alike settings h source source']
  split <;> rfl

end Assembly

end Minicomputer
