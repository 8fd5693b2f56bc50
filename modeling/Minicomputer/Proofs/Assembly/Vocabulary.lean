import Minicomputer.Proofs.Instruction.Spelling

/-!
# The words of assembly text

The words that begin a statement, listed with the forms that they stand for. Beside the names of the
forms there are other names for some, and words that say the first operand too. A word is understood
exactly where it is listed or made from the name of an operation.
-/

set_option autoImplicit false

namespace Minicomputer

theorem ArithOp.name_of_ofName? {s : String} {op : ArithOp} (h : ofName? s = some op) :
    op.name = s := by
  simpa using List.find?_some h

theorem StackOp.name_of_ofName? {s : String} {op : StackOp} (h : ofName? s = some op) :
    op.name = s := by
  simpa using List.find?_some h

theorem Comparison.name_of_ofMnemonic? {s : String} {op : Comparison} {immediate : Bool}
    (h : ofMnemonic? s = some (op, immediate)) :
    (if immediate then op.name ++ "i" else op.name) = s := by
  unfold ofMnemonic? at h
  split at h
  · next hs =>
    cases h
    simpa using List.find?_some hs
  · obtain ⟨q, hq, h⟩ := Option.map_eq_some_iff.mp h
    cases h
    simpa using List.find?_some hq

/-- There is no form of `li` with an offset register. -/
theorem AccessOp.name_of_ofMnemonic? {s : String} {op : AccessOp} {withOffset : Bool}
    (h : ofMnemonic? s = some (op, withOffset)) :
    (if withOffset then op.name ++ "o" else op.name) = s ∧ (withOffset = true → op ≠ li) := by
  unfold ofMnemonic? at h
  split at h
  · next hs =>
    cases h
    exact ⟨by simpa using List.find?_some hs, nofun⟩
  · obtain ⟨q, hq, h⟩ := Option.map_eq_some_iff.mp h
    cases h
    refine ⟨by simpa using List.find?_some hq, fun _ => ?_⟩
    rintro rfl
    exact absurd (List.mem_of_find?_eq_some hq) (by decide)

theorem IndexedOp.name_of_ofName? {s : String} {op : IndexedOp} (h : ofName? s = some op) :
    op.name = s := by
  simpa using List.find?_some h

theorem JumpKind.name_of_ofName? {s : String} {kind : JumpKind} (h : ofName? s = some kind) :
    kind.name = s := by
  simpa using List.find?_some h

namespace Assembly.Mnemonic

/-- The names of all forms. -/
def words : List (String × Mnemonic) :=
  [("sys", sys), ("mv", mv), ("inc", inc), ("dec", dec), ("seti", seti), ("mcp", mcp),
   ("debug", debug), ("nop", nop),
   ("add", arith .add), ("sub", arith .sub), ("mul", arith .mul), ("div", arith .div),
   ("mod", arith .mod), ("and", arith .and), ("or", arith .or), ("xor", arith .xor),
   ("shl", arith .shl), ("shr", arith .shr), ("min", arith .min), ("max", arith .max),
   ("not", arith .not), ("lnot", arith .lnot), ("neg", arith .neg), ("imm", imm),
   ("push", push), ("pop", pop), ("dup", rearrange .dup), ("swap", rearrange .swap),
   ("drop", rearrange .drop), ("over", rearrange .pick), ("rot", rearrange .rot), ("sop", sop),
   ("pushi", pushi),
   ("eq", test .eq false), ("neq", test .neq false), ("gt", test .gt false),
   ("gte", test .gte false), ("lt", test .lt false), ("lte", test .lte false),
   ("eqi", test .eq true), ("neqi", test .neq true), ("gti", test .gt true),
   ("gtei", test .gte true), ("lti", test .lt true), ("ltei", test .lte true),
   ("lw", access .lw false), ("lb", access .lb false), ("lwo", access .lw true),
   ("lbo", access .lb true), ("sw", access .sw false), ("sb", access .sb false),
   ("swo", access .sw true), ("sbo", access .sb true), ("li", access .li false),
   ("lwr", indexed .lwr), ("lbr", indexed .lbr), ("swr", indexed .swr), ("sbr", indexed .sbr),
   ("j", jump .j), ("jz", jump .jz), ("jnz", jump .jnz), ("jal", jump .jal),
   ("jr", jr)]

/-- Other names for some of them. -/
def aliases : List (String × String) :=
  [("mov", "mv"), ("ldi", "li"), ("la", "li"), ("noop", "nop")]

/-- What a word stands for, in any letter case: a form, and the name of its first operand where the
word says that too. -/
inductive Means (word : String) : Mnemonic → Option String → Prop where
  | named {m : Mnemonic} (h : (word.toLower, m) ∈ words) : Means word m none
  | aliased {name : String} {m : Mnemonic} (ha : (word.toLower, name) ∈ aliases)
      (h : (name, m) ∈ words) : Means word m none
  | ret (h : word.toLower = "ret") : Means word jr (some "ra")
  | immediate (op : ArithOp) (h : word.toLower = op.name ++ "i") : Means word imm (some op.name)
  | onStack (op : ArithOp) (h : word.toLower = "s" ++ op.name) : Means word sop (some op.name)

theorem mem_words_of_ofName? {s : String} {m : Mnemonic} (h : ofName? s = some m) :
    (s, m) ∈ words := by
  simp only [ofName?, Option.orElse_eq_or, Option.orElse_eq_orElse, Option.or_eq_some_iff,
    Option.map_eq_some_iff] at h
  obtain h | ⟨-, ⟨op, h, rfl⟩ | ⟨-, ⟨op, h, rfl⟩ | ⟨-, ⟨⟨op, immediate⟩, h, rfl⟩ |
    ⟨-, ⟨⟨op, withOffset⟩, h, rfl⟩ | ⟨-, ⟨op, h, rfl⟩ | ⟨-, kind, h, rfl⟩⟩⟩⟩⟩⟩ := h
  · obtain ⟨_, _, he, -⟩ := List.lookup_eq_some_iff.mp h
    have hm : (s, m) ∈ plain := by simp [he]
    have hall : ∀ p ∈ plain, p ∈ words := by decide
    exact hall _ hm
  · obtain rfl := ArithOp.name_of_ofName? h
    cases op <;> decide
  · obtain rfl := StackOp.name_of_ofName? h
    cases op <;> decide
  · obtain rfl := Comparison.name_of_ofMnemonic? h
    cases op <;> cases immediate <;> decide
  · obtain ⟨rfl, hli⟩ := AccessOp.name_of_ofMnemonic? h
    cases op <;> cases withOffset <;> first | decide | exact absurd rfl (hli rfl)
  · obtain rfl := IndexedOp.name_of_ofName? h
    cases op <;> decide
  · obtain rfl := JumpKind.name_of_ofName? h
    cases kind <;> decide

theorem unaliased_cases (s : String) : (s, unaliased s) ∈ aliases ∨ unaliased s = s := by
  unfold unaliased
  split
  · exact .inl (by decide)
  · exact .inl (by decide)
  · exact .inl (by decide)
  · exact .inl (by decide)
  · exact .inr rfl

theorem name_of_words : ∀ p ∈ words, p.1 = p.2.name ∧ p.2 ≠ access .li true := by decide

theorem toLower_of_words : ∀ p ∈ words, p.1.toLower = p.1 := by decide_cbv

/-- Only letters in lower case matter. -/
theorem ofWord?_of_toLower {word s : String} (h : word.toLower = s) (hs : s.toLower = s) :
    ofWord? word = ofWord? s := by
  unfold ofWord?
  rw [h, hs]

theorem ofWord?_of_means {word : String} {m : Mnemonic} {implied : Option String}
    (h : Means word m implied) : ofWord? word = some (m, implied) := by
  have hwords {s : String} {m : Mnemonic} (h : (s, m) ∈ words) : ofWord? s = some (m, none) := by
    obtain ⟨hs, hm⟩ := name_of_words _ h
    exact (congrArg ofWord? hs).trans (ofWord?_name hm)
  have haliases : ∀ p ∈ aliases, p.1.toLower = p.1 ∧ ofWord? p.1 = ofWord? p.2 := by decide_cbv
  have hops : ∀ op ∈ ArithOp.all,
      ((op.name ++ "i").toLower = op.name ++ "i" ∧
        ofWord? (op.name ++ "i") = some (imm, some op.name)) ∧
      ("s" ++ op.name).toLower = "s" ++ op.name ∧
        ofWord? ("s" ++ op.name) = some (sop, some op.name) := by decide_cbv
  cases h with
  | named h => exact (ofWord?_of_toLower rfl (toLower_of_words _ h)).trans (hwords h)
  | aliased ha h =>
    obtain ⟨hlower, hword⟩ := haliases _ ha
    exact (ofWord?_of_toLower rfl hlower).trans (hword.trans (hwords h))
  | ret h =>
    rw [ofWord?_of_toLower h (by decide_cbv)]
    decide_cbv
  | immediate op h =>
    obtain ⟨⟨hlower, hword⟩, -⟩ := hops op op.mem_all
    rw [ofWord?_of_toLower h hlower, hword]
  | onStack op h =>
    obtain ⟨-, hlower, hword⟩ := hops op op.mem_all
    rw [ofWord?_of_toLower h hlower, hword]

theorem means_of_ofWord? {word : String} {m : Mnemonic} {implied : Option String}
    (h : ofWord? word = some (m, implied)) : Means word m implied := by
  have hnamed : ∀ p ∈ aliases, (ofName? p.2).isSome = true ∧ p.2 ≠ "ret" := by decide_cbv
  simp only [ofWord?] at h
  split at h
  · next hret =>
    cases h
    obtain ha | ha := unaliased_cases word.toLower
    · exact absurd hret (hnamed _ ha).2
    · exact .ret (ha.symm.trans hret)
  · split at h
    · next hn =>
      cases h
      have hm := mem_words_of_ofName? hn
      obtain ha | ha := unaliased_cases word.toLower
      · exact .aliased ha hm
      · rw [ha] at hm
        exact .named hm
    · next hn =>
      -- Other names stand for names, so a word that is made up is not one of them.
      have hs : unaliased word.toLower = word.toLower := by
        refine (unaliased_cases word.toLower).resolve_left fun ha => ?_
        have hsome := (hnamed _ ha).1
        rw [hn] at hsome
        cases hsome
      rw [hs] at h
      split at h
      · next op ho =>
        cases h
        have hname : op.name ++ "i" = word.toLower := by simpa using List.find?_some ho
        exact .immediate op hname.symm
      · obtain ⟨op, ho, he⟩ := Option.map_eq_some_iff.mp h
        cases he
        have hname : "s" ++ op.name = word.toLower := by simpa using List.find?_some ho
        exact .onStack op hname.symm

/-- The words that are understood are those of the vocabulary. -/
theorem ofWord?_eq_some_iff {word : String} {m : Mnemonic} {implied : Option String} :
    ofWord? word = some (m, implied) ↔ Means word m implied :=
  ⟨means_of_ofWord?, ofWord?_of_means⟩

end Assembly.Mnemonic
end Minicomputer
