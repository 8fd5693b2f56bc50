import Mathlib
import Minicomputer.Assembly.Operand

/-!
# Reading without complaint

What a reading step accepts, told apart from what it does about operands that it does not accept.
A step reads a value from the front of some tokens when it takes them without a complaint. For each
kind of operand that is stated as an equivalence, so that it serves in both directions.
-/

set_option autoImplicit false

namespace Minicomputer.Assembly.Reading

variable {α β : Type} {anchor : Token} {ts rest : List Token}

/-- Steps only add complaints and leave the anchor alone. -/
class Lawful (r : Reading α) : Prop where
  anchor_run : ∀ s : Operands, (r.run s).2.anchor = s.anchor
  grows : ∀ s : Operands, s.diagnostics <+: (r.run s).2.diagnostics

/-- The value `a` is read from the front of `ts` without a complaint, and `rest` is left over. -/
def Reads (r : Reading α) (anchor : Token) (ts : List Token) (a : α) (rest : List Token) : Prop :=
  r.run ⟨anchor, ts, []⟩ = (a, ⟨anchor, rest, []⟩)

instance lawful_pure (a : α) : Lawful (pure a : Reading α) where
  anchor_run _ := rfl
  grows _ := List.prefix_refl _

instance lawful_bind (r : Reading α) (k : α → Reading β) [hr : Lawful r] [hk : ∀ a, Lawful (k a)] :
    Lawful (r >>= k) where
  anchor_run s := ((hk _).anchor_run _).trans (hr.anchor_run s)
  grows s := (hr.grows s).trans ((hk _).grows _)

instance lawful_map (f : α → β) (r : Reading α) [hr : Lawful r] : Lawful (f <$> r) where
  anchor_run s := hr.anchor_run s
  grows s := hr.grows s

instance lawful_ite (p : Prop) [Decidable p] (r q : Reading α) [hr : Lawful r] [hq : Lawful q] :
    Lawful (if p then r else q) := by
  split
  · exact hr
  · exact hq

instance lawful_complain (t : Token) (c : Cause) : Lawful (complain t c) where
  anchor_run _ := rfl
  grows _ := List.prefix_append _ _

instance lawful_complainAtAnchor (c : Cause) : Lawful (complainAtAnchor c) where
  anchor_run _ := rfl
  grows _ := List.prefix_append _ _

instance lawful_peek? : Lawful peek? where
  anchor_run _ := rfl
  grows _ := List.prefix_refl _

instance lawful_next? : Lawful next? where
  anchor_run _ := rfl
  grows _ := List.prefix_refl _

instance lawful_complainAll (t? : Option Token) (c : Token → Cause) :
    Lawful (t?.forM fun t => complain t (c t)) := by
  cases t? with
  | none => exact lawful_pure ()
  | some t => exact lawful_complain t (c t)

theorem reads_iff_of_run {r : Reading α} {a b : α} {mid : List Token}
    (h : r.run ⟨anchor, ts, []⟩ = (a, ⟨anchor, mid, []⟩)) :
    Reads r anchor ts b rest ↔ b = a ∧ rest = mid := by
  rw [Reads, h]
  constructor
  · intro e
    cases e
    exact ⟨rfl, rfl⟩
  · rintro ⟨rfl, rfl⟩
    rfl

@[simp] theorem reads_pure {a b : α} : Reads (pure a) anchor ts b rest ↔ b = a ∧ rest = ts :=
  reads_iff_of_run rfl

@[simp] theorem reads_peek? {t? : Option Token} :
    Reads peek? anchor ts t? rest ↔ t? = ts.head? ∧ rest = ts :=
  reads_iff_of_run rfl

@[simp] theorem reads_next? {t? : Option Token} :
    Reads next? anchor ts t? rest ↔ t? = ts.head? ∧ rest = ts.tail :=
  reads_iff_of_run rfl

@[simp] theorem not_reads_complain {t : Token} {c : Cause} {u : Unit} :
    ¬ Reads (complain t c) anchor ts u rest := by
  intro h
  cases h

@[simp] theorem not_reads_complainAtAnchor {c : Cause} {u : Unit} :
    ¬ Reads (complainAtAnchor c) anchor ts u rest := by
  intro h
  cases h

theorem reads_bind_of_reads {r : Reading α} {k : α → Reading β} {a : α} {b : β} {mid : List Token}
    (h : Reads r anchor ts a mid) :
    Reads (r >>= k) anchor ts b rest ↔ Reads (k a) anchor mid b rest := by
  unfold Reads at h ⊢
  rw [StateT.run_bind, h]
  rfl

/-- A step after another one reads what the other one has left. -/
@[simp] theorem reads_bind {r : Reading α} {k : α → Reading β} [hr : Lawful r]
    [hk : ∀ a, Lawful (k a)] {b : β} : Reads (r >>= k) anchor ts b rest ↔
      ∃ a mid, Reads r anchor ts a mid ∧ Reads (k a) anchor mid b rest := by
  constructor
  · intro h
    rw [Reads, StateT.run_bind] at h
    rcases hm : r.run ⟨anchor, ts, []⟩ with ⟨a, s⟩
    have hs : (k a).run s = (b, ⟨anchor, rest, []⟩) := by
      rw [hm] at h
      exact h
    have ha : s.anchor = anchor := by
      have e := hr.anchor_run ⟨anchor, ts, []⟩
      rw [hm] at e
      exact e
    -- Complaints are never taken back, so that the first step has made none either.
    have hd : s.diagnostics = [] := by
      have hp := (hk a).grows s
      rw [hs] at hp
      exact List.prefix_nil.mp hp
    obtain ⟨_, mid, _⟩ := s
    subst ha hd
    exact ⟨a, mid, hm, hs⟩
  · rintro ⟨a, mid, hm, hs⟩
    exact (reads_bind_of_reads hm).mpr hs

@[simp] theorem reads_map {r : Reading α} {f : α → β} [Lawful r] {b : β} :
    Reads (f <$> r) anchor ts b rest ↔ ∃ a, Reads r anchor ts a rest ∧ b = f a := by
  rw [map_eq_pure_bind, reads_bind]
  simp only [reads_pure]
  constructor
  · rintro ⟨a, _, h, rfl, rfl⟩
    exact ⟨a, h, rfl⟩
  · rintro ⟨a, h, rfl⟩
    exact ⟨a, rest, h, rfl, rfl⟩

theorem reads_ite {p : Prop} [Decidable p] {r q : Reading α} {a : α} :
    Reads (if p then r else q) anchor ts a rest ↔
      (p ∧ Reads r anchor ts a rest) ∨ (¬p ∧ Reads q anchor ts a rest) := by
  split <;> simp_all

/-- Reading operands to their end leaves nothing to complain about exactly where they are read
without complaint and none is left over. -/
theorem all_eq_iff {r : Reading α} [hr : Lawful r] {a : α} :
    all anchor ts r = (a, []) ↔ Reads r anchor ts a [] := by
  unfold all Reads
  rcases hm : r.run ⟨anchor, ts, []⟩ with ⟨b, s⟩
  have ha := hr.anchor_run ⟨anchor, ts, []⟩
  rw [hm] at ha
  obtain ⟨_, left, ds⟩ := s
  cases ha
  constructor
  · intro h
    cases left <;> simp_all
  · intro h
    cases h
    rfl

/-! ### Kinds of operands -/

/-- The token names the register `r`, which is allowed. -/
def Names (allowed : Register → Bool) (r : Register) (t : Token) : Prop :=
  namedRegister? t = some r ∧ allowed r = true

/-- The token denotes the number `n` between two bounds. -/
def Denotes (low high n : Int) (t : Token) : Prop :=
  isConstant t = true ∧ constant? t = some n ∧ low ≤ n ∧ n ≤ high

/-- The token names an operation of arithmetic. -/
def NamesArith (op : ArithOp) (t : Token) : Prop :=
  t.kind = .identifier ∧ ArithOp.ofName? t.text.toLower = some op

/-- The token names a system call. -/
def NamesCall (call : SystemCall) (t : Token) : Prop :=
  t.kind = .identifier ∧ SystemCall.ofName? t.text = some call

/-- The token stands for an address, which is a number between two bounds or a label. -/
def Locates (low high : Int) (a : AddressOperand) (t : Token) : Prop :=
  (∃ n, Denotes low high n t ∧ a = .value (Word.ofInt n)) ∨ (t.kind = .identifier ∧ a = .label t)

/-- Whether some tokens start with the name of a register. -/
def startsWithRegister (ts : List Token) : Bool :=
  ts.head?.any fun t => (namedRegister? t).isSome

/-- Whether some tokens start with a constant. -/
def startsWithConstant (ts : List Token) : Bool := ts.head?.any isConstant

theorem Names.starts {allowed : Register → Bool} {r : Register} {t : Token}
    (h : Names allowed r t) (ts : List Token) : startsWithRegister (t :: ts) = true := by
  simp [startsWithRegister, h.1]

theorem Denotes.starts {low high n : Int} {t : Token} (h : Denotes low high n t)
    (ts : List Token) : startsWithConstant (t :: ts) = true := by
  simp [startsWithConstant, h.1]

instance lawful_registerFollows : Lawful registerFollows := lawful_bind _ _

instance lawful_constantFollows : Lawful constantFollows := lawful_bind _ _

@[simp] theorem reads_registerFollows {b : Bool} :
    Reads registerFollows anchor ts b rest ↔ b = startsWithRegister ts ∧ rest = ts :=
  reads_iff_of_run rfl

@[simp] theorem reads_constantFollows {b : Bool} :
    Reads constantFollows anchor ts b rest ↔ b = startsWithConstant ts ∧ rest = ts :=
  reads_iff_of_run rfl

instance lawful_register (allowed : Register → Bool) (c : Cause) : Lawful (register allowed c) := by
  refine @lawful_bind _ _ _ _ _ fun t? => ?_
  rcases t? with _ | t
  · infer_instance
  · dsimp only
    cases namedRegister? t <;> infer_instance

theorem reads_register {allowed : Register → Bool} {c : Cause} {r : Register} :
    Reads (register allowed c) anchor ts r rest ↔ ∃ t, ts = t :: rest ∧ Names allowed r t := by
  rw [register, reads_bind_of_reads (reads_next?.mpr ⟨rfl, rfl⟩)]
  rcases ts with _ | ⟨t, ts⟩
  · simp
  rcases hn : namedRegister? t with _ | q
  · simp [hn, Names]
  by_cases ha : allowed q = true
  · simp [hn, ha, Names]
    grind
  · simp [hn, ha, Names]
    grind

instance lawful_writeable : Lawful writeable := lawful_register _ _

instance lawful_readable : Lawful readable := lawful_register _ _

@[simp] theorem reads_writeable {r : Register} :
    Reads writeable anchor ts r rest ↔ ∃ t, ts = t :: rest ∧ Names Register.isWriteable r t :=
  reads_register

@[simp] theorem reads_readable {r : Register} :
    Reads readable anchor ts r rest ↔ ∃ t, ts = t :: rest ∧ Names Register.isReadable r t :=
  reads_register

instance lawful_stackRegister : Lawful stackRegister := lawful_bind _ _

@[simp] theorem reads_stackRegister {r : Register} :
    Reads stackRegister anchor ts r rest ↔
      (∃ t, ts = t :: rest ∧ Names Register.isWriteable r t) ∨
        (startsWithRegister ts = false ∧ r = .sp ∧ rest = ts) := by
  rw [stackRegister, reads_bind]
  simp only [reads_registerFollows, reads_ite, reads_writeable, reads_pure]
  constructor
  · rintro ⟨_, _, ⟨rfl, rfl⟩, ⟨-, h⟩ | ⟨hf, h⟩⟩
    · exact .inl h
    · exact .inr ⟨by simpa using hf, h⟩
  · rintro (⟨t, rfl, hn⟩ | ⟨hf, h⟩)
    · exact ⟨_, _, ⟨rfl, rfl⟩, .inl ⟨hn.starts rest, t, rfl, hn⟩⟩
    · exact ⟨_, _, ⟨rfl, rfl⟩, .inr ⟨by simp [hf], h⟩⟩

instance lawful_integer (low high : Int) : Lawful (integer low high) := by
  refine @lawful_bind _ _ _ _ _ fun t? => ?_
  rcases t? with _ | t
  · infer_instance
  · dsimp only
    cases constant? t <;> infer_instance

@[simp] theorem reads_integer {low high n : Int} :
    Reads (integer low high) anchor ts n rest ↔ ∃ t, ts = t :: rest ∧ Denotes low high n t := by
  rw [integer, reads_bind_of_reads (reads_next?.mpr ⟨rfl, rfl⟩)]
  rcases ts with _ | ⟨t, ts⟩
  · simp
  by_cases hc : isConstant t = true
  · rcases hv : constant? t with _ | v
    · simp [hc, hv, Denotes]
    · by_cases hb : low ≤ v ∧ v ≤ high
      · simp [hc, hv, hb, Denotes]
        grind
      · simp [hc, hv, hb, Denotes]
        grind
  · simp [hc, Denotes]

instance lawful_word : Lawful word := lawful_bind _ _

@[simp] theorem reads_word {w : Word} :
    Reads word anchor ts w rest ↔
      ∃ n t, ts = t :: rest ∧ Denotes (-32768) 65535 n t ∧ w = Word.ofInt n := by
  simp only [word, reads_bind, reads_integer, reads_pure]
  grind

instance lawful_nibble : Lawful nibble := lawful_bind _ _

@[simp] theorem reads_nibble {b : Byte} :
    Reads nibble anchor ts b rest ↔
      ∃ n t, ts = t :: rest ∧ Denotes 0 15 n t ∧ b = UInt8.ofNat n.toNat := by
  simp only [nibble, reads_bind, reads_integer, reads_pure]
  grind

instance lawful_address (low high : Int) : Lawful (address low high) := by
  refine @lawful_bind _ _ _ _ _ fun c => ?_
  refine @lawful_ite _ _ _ _ _ inferInstance (@lawful_bind _ _ _ _ _ fun t? => ?_)
  rcases t? with _ | t <;> infer_instance

@[simp] theorem reads_address {low high : Int} {a : AddressOperand} :
    Reads (address low high) anchor ts a rest ↔
      ∃ t, ts = t :: rest ∧ Locates low high a t := by
  rw [address, reads_bind_of_reads (reads_constantFollows.mpr ⟨rfl, rfl⟩), reads_ite]
  rcases ts with _ | ⟨t, ts⟩
  · rw [reads_bind_of_reads (reads_next?.mpr ⟨rfl, rfl⟩)]
    simp [startsWithConstant]
  by_cases hc : isConstant t = true
  · have hk : t.kind ≠ .identifier := by
      intro e
      simp [isConstant, Token.isNumber, e] at hc
    simp [startsWithConstant, hc, Locates]
    grind
  · rw [reads_bind_of_reads (reads_next?.mpr ⟨rfl, rfl⟩)]
    by_cases hk : t.kind = .identifier
    · simp [startsWithConstant, hc, hk, Locates, Denotes]
      grind
    · simp [startsWithConstant, hc, hk, Locates, Denotes]

instance lawful_arithOp : Lawful arithOp := by
  refine @lawful_bind _ _ _ _ _ fun t? => ?_
  rcases t? with _ | t
  · infer_instance
  · dsimp only
    cases (if t.kind = .identifier then ArithOp.ofName? t.text.toLower else none) <;> infer_instance

@[simp] theorem reads_arithOp {op : ArithOp} :
    Reads arithOp anchor ts op rest ↔ ∃ t, ts = t :: rest ∧ NamesArith op t := by
  rw [arithOp, reads_bind_of_reads (reads_next?.mpr ⟨rfl, rfl⟩)]
  rcases ts with _ | ⟨t, ts⟩
  · simp
  by_cases hk : t.kind = .identifier
  · rcases ho : ArithOp.ofName? t.text.toLower with _ | o
    · simp [hk, ho, NamesArith]
    · simp [hk, ho, NamesArith]
      grind
  · simp [hk, NamesArith]

instance lawful_systemCall : Lawful systemCall := by
  refine @lawful_bind _ _ _ _ _ fun t? => ?_
  rcases t? with _ | t
  · infer_instance
  · dsimp only
    cases (if t.kind = .identifier then SystemCall.ofName? t.text else none) <;> infer_instance

@[simp] theorem reads_systemCall {b : Byte} :
    Reads systemCall anchor ts b rest ↔
      ∃ t call, ts = t :: rest ∧ NamesCall call t ∧ b = call.selector := by
  rw [systemCall, reads_bind_of_reads (reads_next?.mpr ⟨rfl, rfl⟩)]
  rcases ts with _ | ⟨t, ts⟩
  · simp
  by_cases hk : t.kind = .identifier
  · rcases ho : SystemCall.ofName? t.text with _ | o
    · simp [hk, ho, NamesCall]
    · simp [hk, ho, NamesCall]
      grind
  · simp [hk, NamesCall]

instance lawful_string : Lawful string := by
  refine @lawful_bind _ _ _ _ _ fun t? => ?_
  rcases t? with _ | t <;> infer_instance

@[simp] theorem reads_string {text : String} :
    Reads string anchor ts text rest ↔ ∃ t, ts = t :: rest ∧ t.kind = .string ∧ text = t.text := by
  rw [string, reads_bind_of_reads (reads_next?.mpr ⟨rfl, rfl⟩)]
  rcases ts with _ | ⟨t, ts⟩
  · simp
  by_cases hk : t.kind = .string
  · simp [hk]
    grind
  · simp [hk]

instance lawful_offsetRegister : Lawful offsetRegister := by
  unfold offsetRegister
  infer_instance

@[simp] theorem reads_offsetRegister {o : Option Register} :
    Reads offsetRegister anchor ts o rest ↔
      (∃ t r, ts = t :: rest ∧ Names Register.isReadable r t ∧ r ≠ .pc ∧ o = some r) ∨
        (startsWithRegister ts = false ∧ o = none ∧ rest = ts) := by
  rw [offsetRegister, reads_bind_of_reads (reads_registerFollows.mpr ⟨rfl, rfl⟩), reads_ite,
    reads_bind_of_reads (reads_peek?.mpr ⟨rfl, rfl⟩)]
  rcases ts with _ | ⟨t, ts⟩
  · simp [startsWithRegister]
  rcases hn : namedRegister? t with _ | r
  · simp [startsWithRegister, hn, Names]
  · simp [startsWithRegister, hn, Names, reads_ite]
    grind

instance lawful_binaryOp : Lawful binaryOp := by
  unfold binaryOp
  infer_instance

@[simp] theorem reads_binaryOp {op : ArithOp} :
    Reads binaryOp anchor ts op rest ↔
      ∃ t, ts = t :: rest ∧ NamesArith op t ∧ op.isUnary = false := by
  rw [binaryOp, reads_bind_of_reads (reads_peek?.mpr ⟨rfl, rfl⟩)]
  rcases ts with _ | ⟨t, ts⟩
  · simp
  · simp [reads_ite]
    grind

end Minicomputer.Assembly.Reading
