import Minicomputer.Proofs.Assembly.Reassembly
import Minicomputer.Proofs.Assembly.Vocabulary

/-!
# Lines that are recognised

A line of the text segment is a statement of the grammar exactly where nothing is wrong with it but
labels that other lines have bound before. The operation that is kept is the one that the grammar
gives it.
-/

set_option autoImplicit false

namespace Minicomputer.Assembly

namespace Reading

variable {α β : Type}

/-- What is complained about is not that a label was bound before. -/
def AboutOperands (ds : List Diagnostic) : Prop := ∀ c ∈ ds, c.cause ≠ .duplicateLabel

theorem aboutOperands_nil : AboutOperands [] := List.forall_mem_nil _

theorem AboutOperands.append {ds es : List Diagnostic} (hd : AboutOperands ds)
    (he : AboutOperands es) : AboutOperands (ds ++ es) := by
  intro c hc
  obtain hc | hc := List.mem_append.mp hc
  · exact hd c hc
  · exact he c hc

theorem aboutOperands_singleton (t : Token) {c : Cause} (h : c ≠ .duplicateLabel) :
    AboutOperands [⟨t, c⟩] := by
  intro d hd
  rw [List.mem_singleton.mp hd]
  exact h

/-- Steps that complain about operands only. -/
class Careful (r : Reading α) : Prop where
  aboutOperands_run : ∀ s : Operands, AboutOperands s.diagnostics →
    AboutOperands (r.run s).2.diagnostics

instance careful_pure (a : α) : Careful (pure a : Reading α) := ⟨fun _ h => h⟩

instance careful_bind (r : Reading α) (k : α → Reading β) [hr : Careful r]
    [hk : ∀ a, Careful (k a)] : Careful (r >>= k) :=
  ⟨fun s h => (hk _).aboutOperands_run _ (hr.aboutOperands_run s h)⟩

instance careful_map (f : α → β) (r : Reading α) [hr : Careful r] : Careful (f <$> r) :=
  ⟨fun s h => hr.aboutOperands_run s h⟩

instance careful_ite (p : Prop) [Decidable p] (r q : Reading α) [hr : Careful r]
    [hq : Careful q] : Careful (if p then r else q) := by
  split
  · exact hr
  · exact hq

theorem careful_complain {c : Cause} (h : c ≠ .duplicateLabel) (t : Token) :
    Careful (complain t c) :=
  ⟨fun _ hs => hs.append (aboutOperands_singleton t h)⟩

theorem careful_complainAtAnchor {c : Cause} (h : c ≠ .duplicateLabel) :
    Careful (complainAtAnchor c) :=
  ⟨fun s hs => hs.append (aboutOperands_singleton s.anchor h)⟩

instance careful_peek? : Careful peek? := ⟨fun _ h => h⟩

instance careful_next? : Careful next? := ⟨fun _ h => h⟩

theorem careful_complainAll {c : Token → Cause} (h : ∀ t, c t ≠ .duplicateLabel)
    (t? : Option Token) : Careful (t?.forM fun t => complain t (c t)) := by
  cases t? with
  | none => exact careful_pure ()
  | some t => exact careful_complain (h t) t

theorem careful_register (allowed : Register → Bool) {c : Cause} (h : c ≠ .duplicateLabel) :
    Careful (register allowed c) := by
  have hmissing := careful_complainAtAnchor (c := .registerMissing) nofun
  have hnot := careful_complain (c := .notRegister) nofun
  have hotherwise := careful_complain h
  refine @careful_bind _ _ _ _ _ fun t? => ?_
  rcases t? with _ | t
  · infer_instance
  · dsimp only
    cases namedRegister? t <;> infer_instance

instance careful_writeable : Careful writeable := careful_register _ nofun

instance careful_readable : Careful readable := careful_register _ nofun

instance careful_registerFollows : Careful registerFollows := careful_bind _ _

instance careful_constantFollows : Careful constantFollows := careful_bind _ _

instance careful_stackRegister : Careful stackRegister := careful_bind _ _

instance careful_integer (low high : Int) : Careful (integer low high) := by
  have hmissing := careful_complainAtAnchor (c := .integerMissing) nofun
  have hnot := careful_complain (c := .notInteger) nofun
  have hrange := careful_complain (c := .outOfRange low high) nofun
  refine @careful_bind _ _ _ _ _ fun t? => ?_
  rcases t? with _ | t
  · infer_instance
  · dsimp only
    cases constant? t <;> infer_instance

instance careful_word : Careful word := careful_bind _ _

instance careful_nibble : Careful nibble := careful_bind _ _

instance careful_address (low high : Int) : Careful (address low high) := by
  have hmissing := careful_complainAtAnchor (c := .addressMissing) nofun
  have hnot := careful_complain (c := .notAddress) nofun
  refine @careful_bind _ _ _ _ _ fun c => ?_
  refine @careful_ite _ _ _ _ _ inferInstance (@careful_bind _ _ _ _ _ fun t? => ?_)
  rcases t? with _ | t <;> infer_instance

instance careful_arithOp : Careful arithOp := by
  have hmissing := careful_complainAtAnchor (c := .operationMissing) nofun
  have hnot := careful_complain (c := .notOperation) nofun
  refine @careful_bind _ _ _ _ _ fun t? => ?_
  rcases t? with _ | t
  · infer_instance
  · dsimp only
    cases (if t.kind = .identifier then ArithOp.ofName? t.text.toLower else none) <;> infer_instance

instance careful_systemCall : Careful systemCall := by
  have hmissing := careful_complainAtAnchor (c := .systemCallMissing) nofun
  have hnot := careful_complain (c := .unknownSystemCall) nofun
  refine @careful_bind _ _ _ _ _ fun t? => ?_
  rcases t? with _ | t
  · infer_instance
  · dsimp only
    cases (if t.kind = .identifier then SystemCall.ofName? t.text else none) <;> infer_instance

instance careful_string : Careful string := by
  have hmissing := careful_complainAtAnchor (c := .stringMissing) nofun
  have hnot := careful_complain (c := .notString) nofun
  refine @careful_bind _ _ _ _ _ fun t? => ?_
  rcases t? with _ | t <;> infer_instance

instance careful_offsetRegister : Careful offsetRegister := by
  have hnot := careful_complainAll (c := fun _ => .notOffset) nofun
  unfold offsetRegister
  infer_instance

instance careful_binaryOp : Careful binaryOp := by
  have hunary (op : ArithOp) := careful_complainAll (c := fun _ => .unaryImmediate op) nofun
  unfold binaryOp
  infer_instance

instance careful_operation (n : Nat) (m : Mnemonic) : Careful (operation n m) := by
  have hmany := careful_complainAtAnchor (c := .tooManyDebugStrings) nofun
  cases m with
  | test op immediate => cases immediate <;> (unfold operation; infer_instance)
  | _ => unfold operation; infer_instance

/-- What is left over is unexpected, and that is not about labels either. -/
theorem aboutOperands_all (anchor : Token) (ts : List Token) (r : Reading α) [hr : Careful r] :
    AboutOperands (all anchor ts r).2 := by
  have hrun := hr.aboutOperands_run ⟨anchor, ts, []⟩ aboutOperands_nil
  refine AboutOperands.append hrun ?_
  intro c hc
  obtain ⟨t, -, rfl⟩ := Option.map_eq_some_iff.mp (Option.mem_toList.mp hc)
  nofun

end Reading

open Reading

theorem aboutOperands_operation (n : Nat) (first : Token) (operands : List Token) :
    AboutOperands (Draft.operation n first operands).2 := by
  unfold Draft.operation
  split
  · exact aboutOperands_singleton first nofun
  · split
    · exact aboutOperands_singleton first nofun
    · exact aboutOperands_all _ _ _

theorem cause_of_bind {table : LabelTable} {target : LabelTarget} {labels : List Token}
    {c : Diagnostic} (h : c ∈ (Draft.bind table target labels).2) : c.cause = .duplicateLabel := by
  induction labels generalizing table with
  | nil => cases h
  | cons t ts ih =>
    unfold Draft.bind at h
    split at h
    · exact ih h
    · obtain rfl | h := List.mem_cons.mp h
      · rfl
      · exact ih h

/-- A word with operands behind it derives from the grammar as an operation, where `debugStrings`
counts the debug strings before it. -/
def Recognised (debugStrings : Nat) (first : Token) (operands : List Token) (o : Operation) :
    Prop :=
  ∃ m implied, Mnemonic.Means first.text m implied ∧
    Derives debugStrings m ((implied.map (first.inPlace .identifier)).toList ++ operands) o

variable {n : Nat} {first : Token} {operands : List Token}

theorem stands_iff_recognised (hf : first.kind = .identifier) {o : Operation} :
    Stands n first operands o ↔ Recognised n first operands o := by
  simp only [Stands, hf, true_and, Mnemonic.ofWord?_eq_some_iff]
  rfl

/-- Complaints about a statement are about the labels in front of it or about what it says. -/
theorem recognised_of_diagnostics {duplicates : List Diagnostic}
    (hd : ∀ c ∈ duplicates, c.cause = .duplicateLabel) (hf : first.kind = .identifier) :
    ((∀ c ∈ duplicates ++ (Draft.operation n first operands).2, c.cause = .duplicateLabel) ↔
        ∃ o, Recognised n first operands o) ∧
      ∀ o, Recognised n first operands o → (Draft.operation n first operands).1 = o := by
  have hgives {o : Operation} (ho : Recognised n first operands o) :
      Draft.operation n first operands = (o, []) :=
    operation_eq_iff.mpr ((stands_iff_recognised hf).mpr ho)
  refine ⟨⟨fun h => ?_, ?_⟩, fun o ho => congrArg Prod.fst (hgives ho)⟩
  · have hnil : (Draft.operation n first operands).2 = [] := by
      refine List.eq_nil_iff_forall_not_mem.mpr fun c hc => ?_
      exact aboutOperands_operation n first operands c hc (h c (List.mem_append_right _ hc))
    exact ⟨_, (stands_iff_recognised hf).mp (operation_eq_iff.mp (Prod.ext rfl hnil))⟩
  · rintro ⟨o, ho⟩
    rw [hgives ho, List.append_nil]
    exact hd

/-- Labels and a statement behind them are added as one statement, with the labels that wait. -/
theorem addLine_of_identifier (images : String → Except FileError (List Byte)) {d : Draft}
    (hseg : d.segment = .text) {labels : List Token} (hl : ∀ t ∈ labels, t.kind = .label)
    (hf : first.kind = .identifier) :
    Draft.addLine images d (labels ++ first :: operands) =
      { d with held := [] }.addStatement (d.held ++ labels) first operands := by
  have hdot : segment? (labels ++ first :: operands) = none := by
    cases labels with
    | nil => exact segment?_of_ne (by simp [hf]) operands
    | cons t ts => exact segment?_of_ne (by simp [hl t]) _
  have hat : directive? .at (first :: operands) = none := directive?_of_ne (by simp [hf]) operands
  have hfirst : decide (first.kind = .label) = false := by simp [hf]
  have hlabels : ∀ t ∈ labels, decide (t.kind = .label) = true := fun t ht => by simp [hl t ht]
  have htake : (labels ++ first :: operands).takeWhile (·.kind = .label) = labels := by
    rw [List.takeWhile_append_of_pos hlabels, List.takeWhile_cons, hfirst]
    simp
  have hdrop : (labels ++ first :: operands).dropWhile (·.kind = .label) = first :: operands := by
    rw [List.dropWhile_append_of_pos hlabels, List.dropWhile_cons, hfirst]
    simp
  unfold Draft.addLine
  rw [hdot]
  dsimp only
  rw [htake, hdrop]
  dsimp only
  rw [hat]
  dsimp only
  rw [hseg]

/-- A line of the text segment that begins with a word, behind any labels, becomes one statement.
Nothing is wrong with it but labels bound before exactly where the grammar derives an operation from
the word and its operands, and then that is the operation of the statement. -/
theorem addLine_recognises (images : String → Except FileError (List Byte)) {d : Draft}
    (hseg : d.segment = .text) {labels : List Token} (hl : ∀ t ∈ labels, t.kind = .label)
    {first : Token} (hf : first.kind = .identifier) (operands : List Token) :
    ∃ s : Statement,
      (Draft.addLine images d (labels ++ first :: operands)).statements = d.statements.push s ∧
      (Draft.addLine images d (labels ++ first :: operands)).data = d.data ∧
      (Draft.addLine images d (labels ++ first :: operands)).strays = d.strays ∧
      ((∀ c ∈ s.diagnostics, c.cause = .duplicateLabel) ↔
        ∃ o, Recognised d.debugStrings first operands o) ∧
      ∀ o, Recognised d.debugStrings first operands o → s.operation = o := by
  rw [addLine_of_identifier images hseg hl hf]
  exact ⟨_, rfl, rfl, rfl, recognised_of_diagnostics (fun _ hc => cause_of_bind hc) hf⟩

/-- The name of an operation with a constant behind it, in mixed letters. -/
def addConstant : Token := ⟨.identifier, "ADDi", {}, 10⟩

/-- A label that is bound twice does not matter, and a character is a number. -/
theorem addLine_recognises_addConstant :
    ∃ s : Statement,
      (Draft.addLine (fun _ => .error .notFound) {}
        ([⟨.label, "a", {}, 2⟩, ⟨.label, "a", {}, 5⟩] ++ addConstant ::
          [⟨.identifier, "t0", {}, 13⟩, ⟨.char, "A", {}, 17⟩])).statements = #[s] ∧
      (∀ c ∈ s.diagnostics, c.cause = .duplicateLabel) ∧
      s.operation = .fixed (.arithImm .add .t0 65) := by
  have hl : ∀ t ∈ [⟨.label, "a", {}, 2⟩, (⟨.label, "a", {}, 5⟩ : Token)], t.kind = .label := by
    decide
  have hf : addConstant.kind = .identifier := rfl
  obtain ⟨s, hs, -, -, hiff, hop⟩ := addLine_recognises (fun _ => .error .notFound) (d := {}) rfl
    hl hf [⟨.identifier, "t0", {}, 13⟩, ⟨.char, "A", {}, 17⟩]
  have hrecognised : Recognised 0 addConstant
      [⟨.identifier, "t0", {}, 13⟩, ⟨.char, "A", {}, 17⟩] (.fixed (.arithImm .add .t0 65)) :=
    ⟨.imm, some "add", .immediate .add (by decide_cbv), .imm (n := 65) ⟨rfl, by decide_cbv⟩ rfl
      ⟨by decide_cbv, rfl⟩ ⟨rfl, by decide_cbv, by decide, by decide⟩⟩
  exact ⟨s, hs, hiff.mpr ⟨_, hrecognised⟩, hop _ hrecognised⟩

end Minicomputer.Assembly
