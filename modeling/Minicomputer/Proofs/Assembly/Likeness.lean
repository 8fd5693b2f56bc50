import Minicomputer.Proofs.Assembly.Reading

/-!
# Operands that are read alike

Where a token stands on its line does not matter to what is read from it. Operands that differ in
nothing else are read as the same, and complaints about them are about the same lines.
-/

set_option autoImplicit false

namespace Minicomputer

/-- Tokens that differ in where they stand on their line alone. -/
structure Token.Alike (t u : Token) : Prop where
  kind : t.kind = u.kind
  text : t.text = u.text
  line : t.line = u.line

theorem Token.Alike.refl (t : Token) : t.Alike t := ⟨rfl, rfl, rfl⟩

namespace Assembly

/-- Complaints about the same lines, in the same order. -/
def SameLines (ds es : List Diagnostic) : Prop := ds.map (·.token.line) = es.map (·.token.line)

theorem SameLines.refl (ds : List Diagnostic) : SameLines ds ds := rfl

theorem SameLines.append {ds es ds' es' : List Diagnostic} (h : SameLines ds es)
    (h' : SameLines ds' es') : SameLines (ds ++ ds') (es ++ es') := by
  unfold SameLines at *
  rw [List.map_append, List.map_append, h, h']

theorem SameLines.cons {ds es : List Diagnostic} {t u : Token} (hline : t.line = u.line)
    (c c' : Cause) (h : SameLines ds es) : SameLines (⟨t, c⟩ :: ds) (⟨u, c'⟩ :: es) := by
  unfold SameLines at *
  rw [List.map_cons, List.map_cons, h, hline]

theorem sameLines_singleton {t u : Token} (h : t.line = u.line) (c c' : Cause) :
    SameLines [⟨t, c⟩] [⟨u, c'⟩] := (SameLines.refl []).cons h c c'

/-- Operands that are alike, with complaints about the same lines so far. -/
structure Operands.Alike (s s' : Operands) : Prop where
  anchor : s.anchor.line = s'.anchor.line
  rest : List.Forall₂ Token.Alike s.rest s'.rest
  diagnostics : SameLines s.diagnostics s'.diagnostics

/-- Addresses that are the same, or labels of one name on one line. -/
inductive AddressOperand.Alike : AddressOperand → AddressOperand → Prop where
  | value (a : Word) : Alike (.value a) (.value a)
  | label {t u : Token} (h : t.Alike u) : Alike (.label t) (.label u)

/-- Operations that differ in where the label stands that they name. -/
inductive Operation.Alike : Operation → Operation → Prop where
  | same (o : Operation) : Alike o o
  | access (op : AccessOp) (reg : Register) (offset : Option Register) {a b : AddressOperand}
      (h : a.Alike b) : Alike (.access op reg offset a) (.access op reg offset b)
  | jump (kind : JumpKind) {a b : AddressOperand} (h : a.Alike b) :
      Alike (.jump kind a) (.jump kind b)

theorem sameLines_option {t? u? : Option Token} (h : Option.Rel Token.Alike t? u?) (c : Cause) :
    SameLines (t?.map fun t => ⟨t, c⟩).toList (u?.map fun u => ⟨u, c⟩).toList := by
  cases h with
  | none => rfl
  | some h => exact sameLines_singleton h.line c c

section

variable {α β : Type} {R : α → β → Prop} {xs : List α} {ys : List β}

theorem rel_head? (h : List.Forall₂ R xs ys) :
    Option.Rel R xs.head? ys.head? := by
  cases h with
  | nil => exact .none
  | cons h _ => exact .some h

theorem rel_tail (h : List.Forall₂ R xs ys) :
    List.Forall₂ R xs.tail ys.tail := by
  cases h with
  | nil => exact .nil
  | cons _ h => exact h

end

namespace Reading

variable {α β γ δ : Type} {t u : Token}

theorem isConstant_alike (h : t.Alike u) : isConstant t = isConstant u := by
  rw [isConstant, isConstant, Token.isNumber, Token.isNumber, h.kind]

theorem constant?_alike (h : t.Alike u) : constant? t = constant? u := by
  rw [constant?, constant?, Token.value?, Token.value?, h.kind, h.text]

theorem namedRegister?_alike (h : t.Alike u) : namedRegister? t = namedRegister? u := by
  rw [namedRegister?, namedRegister?, h.kind, h.text]

/-- Readings with related results on operands that are alike. -/
def Agree (R : α → β → Prop) (r : Reading α) (q : Reading β) : Prop :=
  ∀ s s' : Operands, s.Alike s' →
    R (r.run s).1 (q.run s').1 ∧ (r.run s).2.Alike (q.run s').2

theorem Agree.bind {R : α → β → Prop} {S : γ → δ → Prop} {r : Reading α} {q : Reading β}
    {k : α → Reading γ} {l : β → Reading δ} (h : Agree R r q)
    (hk : ∀ a b, R a b → Agree S (k a) (l b)) : Agree S (r >>= k) (q >>= l) := by
  intro s s' hs
  obtain ⟨hr, hs⟩ := h s s' hs
  exact hk _ _ hr _ _ hs

theorem agree_pure {R : α → β → Prop} {a : α} {b : β} (h : R a b) :
    Agree R (pure a : Reading α) (pure b) := fun _ _ hs => ⟨h, hs⟩

theorem agree_complain (h : t.line = u.line) (c : Cause) : Agree Eq (complain t c) (complain u c) :=
  fun _ _ hs => ⟨rfl, hs.anchor, hs.rest, hs.diagnostics.append (sameLines_singleton h c c)⟩

theorem agree_peek? : Agree (Option.Rel Token.Alike) peek? peek? := by
  intro s s' hs
  exact ⟨rel_head? hs.rest, hs⟩

theorem agree_next? : Agree (Option.Rel Token.Alike) next? next? := by
  intro s s' hs
  exact ⟨(agree_peek? s s' hs).1, hs.anchor, rel_tail hs.rest, hs.diagnostics⟩

/-- Steps that do not tell operands apart that are alike. -/
class Blind (r : Reading α) : Prop where
  agree : Agree Eq r r

instance blind_pure (a : α) : Blind (pure a : Reading α) := ⟨agree_pure rfl⟩

instance blind_bind (r : Reading α) (k : α → Reading β) [hr : Blind r] [hk : ∀ a, Blind (k a)] :
    Blind (r >>= k) := by
  refine ⟨hr.agree.bind ?_⟩
  rintro a _ rfl
  exact (hk a).agree

instance blind_map (f : α → β) (r : Reading α) [hr : Blind r] : Blind (f <$> r) := by
  rw [map_eq_pure_bind]
  exact blind_bind r _

instance blind_ite (p : Prop) [Decidable p] (r q : Reading α) [hr : Blind r] [hq : Blind q] :
    Blind (if p then r else q) := by
  split
  · exact hr
  · exact hq

instance blind_complainAtAnchor (c : Cause) : Blind (complainAtAnchor c) :=
  ⟨fun s s' hs => agree_complain hs.anchor c s s' hs⟩

/-- What is read from the next token, where there is one, must not depend on its place. -/
theorem blind_next {missing : Reading α} {f : Token → Reading α} [hm : Blind missing]
    (hf : ∀ t u, t.Alike u → Agree Eq (f t) (f u)) :
    Blind (next? >>= fun | none => missing | some t => f t) := by
  refine ⟨agree_next?.bind ?_⟩
  rintro _ _ (⟨h⟩ | _)
  · exact hf _ _ h
  · exact hm.agree

theorem agree_complain_bind (h : t.line = u.line) (c : Cause) (r : Reading α) [hr : Blind r] :
    Agree Eq (complain t c >>= fun _ => r) (complain u c >>= fun _ => r) :=
  (agree_complain h c).bind fun _ _ _ => hr.agree

theorem blind_register (allowed : Register → Bool) (c : Cause) : Blind (register allowed c) := by
  refine blind_next fun t u h => ?_
  rw [namedRegister?_alike h]
  cases namedRegister? u with
  | none => exact agree_complain_bind h.line _ _
  | some r =>
    dsimp only
    split
    · exact agree_complain_bind h.line c _
    · exact agree_pure rfl

instance blind_writeable : Blind writeable := blind_register _ _

instance blind_readable : Blind readable := blind_register _ _

/-- What is asked of the next token must not depend on its place. -/
theorem blind_follows {p : Token → Bool} (hp : ∀ t u, t.Alike u → p t = p u) :
    Blind (return (← peek?).any p) := by
  refine ⟨agree_peek?.bind ?_⟩
  rintro _ _ (⟨h⟩ | _)
  · exact agree_pure (hp _ _ h)
  · exact agree_pure rfl

instance blind_registerFollows : Blind registerFollows :=
  blind_follows fun _ _ h => by rw [namedRegister?_alike h]

instance blind_constantFollows : Blind constantFollows :=
  blind_follows fun _ _ h => isConstant_alike h

instance blind_stackRegister : Blind stackRegister := blind_bind _ _

instance blind_integer (low high : Int) : Blind (integer low high) := by
  refine blind_next fun t u h => ?_
  rw [isConstant_alike h, constant?_alike h]
  split
  · exact agree_complain_bind h.line _ _
  · cases constant? u with
    | none => exact agree_complain_bind h.line _ _
    | some n =>
      dsimp only
      split
      · exact agree_pure rfl
      · exact agree_complain_bind h.line _ _

instance blind_word : Blind word := blind_bind _ _

instance blind_nibble : Blind nibble := blind_bind _ _

instance blind_arithOp : Blind arithOp := by
  refine blind_next fun t u h => ?_
  rw [h.kind, h.text]
  cases if u.kind = .identifier then ArithOp.ofName? u.text.toLower else none with
  | none => exact agree_complain_bind h.line _ _
  | some op => exact agree_pure rfl

instance blind_systemCall : Blind systemCall := by
  refine blind_next fun t u h => ?_
  rw [h.kind, h.text]
  cases if u.kind = .identifier then SystemCall.ofName? u.text else none with
  | none => exact agree_complain_bind h.line _ _
  | some call => exact agree_pure rfl

instance blind_string : Blind string := by
  refine blind_next fun t u h => ?_
  rw [h.kind, h.text]
  split
  · exact agree_pure rfl
  · exact agree_complain_bind h.line _ _

/-- Complaints about a token that was there, or about none. -/
theorem agree_complainAll {t? u? : Option Token} (h : Option.Rel Token.Alike t? u?) (c : Cause) :
    Agree Eq (t?.forM fun t => complain t c) (u?.forM fun u => complain u c) := by
  cases h with
  | none => exact agree_pure rfl
  | some h => exact agree_complain h.line c

instance blind_offsetRegister : Blind offsetRegister := by
  refine @blind_bind _ _ _ _ _ fun follows => ?_
  refine @blind_ite _ _ _ _ _ ⟨agree_peek?.bind fun t? u? h => ?_⟩ _
  refine blind_readable.agree.bind ?_
  rintro r _ rfl
  split
  · exact (agree_complainAll h _).bind fun _ _ _ => agree_pure rfl
  · exact agree_pure rfl

instance blind_binaryOp : Blind binaryOp := by
  refine ⟨agree_peek?.bind fun t? u? h => blind_arithOp.agree.bind ?_⟩
  rintro op _ rfl
  split
  · exact (agree_complainAll h _).bind fun _ _ _ => agree_pure rfl
  · exact agree_pure rfl

theorem agree_address (low high : Int) :
    Agree AddressOperand.Alike (address low high) (address low high) := by
  refine blind_constantFollows.agree.bind ?_
  rintro follows _ rfl
  split
  · refine (blind_integer low high).agree.bind ?_
    rintro n _ rfl
    exact agree_pure (.value _)
  refine agree_next?.bind ?_
  rintro _ _ (⟨h⟩ | _)
  · dsimp only
    rw [h.kind]
    split
    · exact agree_pure (.label h)
    · exact (agree_complain h.line _).bind fun _ _ _ => agree_pure (.value 0)
  · refine (blind_complainAtAnchor _).agree.bind fun _ _ _ => ?_
    exact agree_pure (.value 0)

/-- Steps to an operation that differs in the place of its label at most, on operands that are
alike. -/
class Steady (r : Reading Operation) : Prop where
  agree : Agree Operation.Alike r r

instance steady_of_blind (r : Reading Operation) [hr : Blind r] : Steady r := by
  refine ⟨fun s s' hs => ?_⟩
  obtain ⟨h, hs⟩ := hr.agree s s' hs
  exact ⟨h ▸ .same _, hs⟩

instance steady_bind (r : Reading α) (k : α → Reading Operation) [hr : Blind r]
    [hk : ∀ a, Steady (k a)] : Steady (r >>= k) := by
  refine ⟨hr.agree.bind ?_⟩
  rintro a _ rfl
  exact (hk a).agree

instance steady_ite (p : Prop) [Decidable p] (r q : Reading Operation) [hr : Steady r]
    [hq : Steady q] : Steady (if p then r else q) := by
  split
  · exact hr
  · exact hq

theorem steady_address (low high : Int) {f : AddressOperand → Operation}
    (hf : ∀ a b, a.Alike b → (f a).Alike (f b)) : Steady (return f (← address low high)) :=
  ⟨(agree_address low high).bind fun a b h => agree_pure (hf a b h)⟩

instance steady_operation (n : Nat) (m : Mnemonic) : Steady (operation n m) := by
  have haccess (low high : Int) (op : AccessOp) (reg : Register) (offset : Option Register) :=
    steady_address low high fun _ _ h => Operation.Alike.access op reg offset h
  have hjump (kind : JumpKind) := steady_address 0 lastAddress fun _ _ h => .jump kind h
  cases m with
  | test op immediate => cases immediate <;> (unfold operation; infer_instance)
  | _ => unfold operation; infer_instance

theorem blind_note {name : String} {r : Reading Note} (h : note? name = some r) : Blind r := by
  unfold note? at h
  split at h <;> cases h <;> infer_instance

/-- Operands that are alike are read to their end alike. -/
theorem all_alike {R : α → β → Prop} {r : Reading α} {q : Reading β} (h : Agree R r q)
    (hline : t.line = u.line) {ts us : List Token} (hs : List.Forall₂ Token.Alike ts us) :
    R (all t ts r).1 (all u us q).1 ∧ SameLines (all t ts r).2 (all u us q).2 := by
  obtain ⟨hr, hs⟩ := h ⟨t, ts, []⟩ ⟨u, us, []⟩ ⟨hline, hs, rfl⟩
  exact ⟨hr, hs.diagnostics.append (sameLines_option (rel_head? hs.rest) _)⟩

end Reading

end Assembly

end Minicomputer
