import Minicomputer.Assembly.Draft
import Minicomputer.Proofs.Assembly.Reading
import Minicomputer.Proofs.Instruction.Emittable

/-!
# The grammar of statements

The operands that each mnemonic takes, one rule a form, with the operation that the form stands for.
A statement is read without complaint exactly where a rule derives it.
-/

set_option autoImplicit false

namespace Minicomputer.Assembly

open Reading

/-- The stack register behind other operands, which may be left out. -/
def OptionalStack (r : Register) (ts : List Token) : Prop :=
  (∃ t, ts = [t] ∧ Names Register.isWriteable r t) ∨ (ts = [] ∧ r = .sp)

/-- The offset register of an indexed access, which may be left out. -/
def OptionalOffset (o : Option Register) (ts : List Token) : Prop :=
  (∃ t r, ts = [t] ∧ Names Register.isReadable r t ∧ r ≠ .pc ∧ o = some r) ∨ (ts = [] ∧ o = none)

/-- The address in an access; `li` takes any word. -/
def AccessAddress (op : AccessOp) (a : AddressOperand) (t : Token) : Prop :=
  if op = .li then Locates (-32768) 65535 a t else Locates 0 lastAddress a t

/-- The operands `ts` of a mnemonic stand for an operation, where `debugStrings` counts the debug
strings before it. -/
inductive Derives (debugStrings : Nat) : Mnemonic → List Token → Operation → Prop where
  | sys {t : Token} {call : SystemCall} (hc : NamesCall call t) :
      Derives debugStrings .sys [t] (.fixed (.sys call.selector))
  | mv {t u : Token} {r q : Register} (hr : Names Register.isWriteable r t)
      (hq : Names Register.isReadable q u) : Derives debugStrings .mv [t, u] (.fixed (.mv r q))
  | inc {t u : Token} {r : Register} {n : Int} (hr : Names Register.isWriteable r t)
      (hn : Denotes 0 15 n u) :
      Derives debugStrings .inc [t, u] (.fixed (.inc r (UInt8.ofNat n.toNat)))
  | incOne {t : Token} {r : Register} (hr : Names Register.isWriteable r t) :
      Derives debugStrings .inc [t] (.fixed (.inc r 1))
  | dec {t u : Token} {r : Register} {n : Int} (hr : Names Register.isWriteable r t)
      (hn : Denotes 0 15 n u) :
      Derives debugStrings .dec [t, u] (.fixed (.dec r (UInt8.ofNat n.toNat)))
  | decOne {t : Token} {r : Register} (hr : Names Register.isWriteable r t) :
      Derives debugStrings .dec [t] (.fixed (.dec r 1))
  | seti {t u : Token} {r : Register} {n : Int} (hr : Names Register.isWriteable r t)
      (hn : Denotes 0 15 n u) :
      Derives debugStrings .seti [t, u] (.fixed (.seti r (UInt8.ofNat n.toNat)))
  | mcp {t u v : Token} {r q : Register} {n : Int} (hr : Names Register.isReadable r t)
      (hq : Names Register.isReadable q u) (hn : Denotes 0 4096 n v) :
      Derives debugStrings .mcp [t, u, v] (.fixed (.mcp r q (Word.ofInt n)))
  | debug {t : Token} (ht : t.kind = .string) (hd : debugStrings ≤ lastDebugString) :
      Derives debugStrings .debug [t] (.debug (UInt8.ofNat debugStrings) t.text)
  | nop : Derives debugStrings .nop [] (.fixed .nop)
  | imm {t u v : Token} {op : ArithOp} {r : Register} {n : Int} (ho : NamesArith op t)
      (hb : op.isUnary = false) (hr : Names Register.isWriteable r u)
      (hn : Denotes (-32768) 65535 n v) :
      Derives debugStrings .imm [t, u, v] (.fixed (.arithImm op r (Word.ofInt n)))
  | binary {t u : Token} {op : ArithOp} {r q : Register} (hb : op.isUnary = false)
      (hr : Names Register.isWriteable r t) (hq : Names Register.isReadable q u) :
      Derives debugStrings (.arith op) [t, u] (.fixed (.arith op r q))
  | unary {t : Token} {op : ArithOp} {r : Register} (hu : op.isUnary = true)
      (hr : Names Register.isWriteable r t) :
      Derives debugStrings (.arith op) [t] (.fixed (.arith op r r))
  | push {t : Token} {ts : List Token} {r s : Register} (hr : Names Register.isReadable r t)
      (hs : OptionalStack s ts) : Derives debugStrings .push (t :: ts) (.fixed (.push r s))
  | pop {t : Token} {ts : List Token} {r s : Register} (hr : Names Register.isWriteable r t)
      (hs : OptionalStack s ts) : Derives debugStrings .pop (t :: ts) (.fixed (.pop r s))
  | sop {t : Token} {ts : List Token} {op : ArithOp} {s : Register} (ho : NamesArith op t)
      (hs : OptionalStack s ts) : Derives debugStrings .sop (t :: ts) (.fixed (.sop op s))
  | rearrange {ts : List Token} {op : StackOp} {s : Register} (hs : OptionalStack s ts) :
      Derives debugStrings (.rearrange op) ts (.fixed (.rearrange op s))
  | pushi {t : Token} {ts : List Token} {n : Int} {s : Register}
      (hn : Denotes (-32768) 65535 n t) (hs : OptionalStack s ts) :
      Derives debugStrings .pushi (t :: ts) (.fixed (.pushImm (Word.ofInt n) s))
  | test {t u : Token} {op : Comparison} {r q : Register} (hr : Names Register.isReadable r t)
      (hq : Names Register.isReadable q u) :
      Derives debugStrings (.test op false) [t, u] (.fixed (.test op r q))
  | testImm {t u : Token} {op : Comparison} {r : Register} {n : Int}
      (hr : Names Register.isReadable r t) (hn : Denotes 0 15 n u) :
      Derives debugStrings (.test op true) [t, u] (.fixed (.testImm op r (UInt8.ofNat n.toNat)))
  | access {t u : Token} {op : AccessOp} {r : Register} {a : AddressOperand}
      (hr : Names (Register.isAccessible op.isStore) r t) (ha : AccessAddress op a u) :
      Derives debugStrings (.access op false) [t, u] (.access op r none a)
  | accessOffset {t u v : Token} {op : AccessOp} {r q : Register} {a : AddressOperand}
      (hr : Names (Register.isAccessible op.isStore) r t) (hq : Names Register.isReadable q u)
      (ha : AccessAddress op a v) :
      Derives debugStrings (.access op true) [t, u, v] (.access op r (some q) a)
  | indexed {t u : Token} {ts : List Token} {op : IndexedOp} {r q : Register} {o : Option Register}
      (hr : Names (Register.isAccessible op.isStore) r t) (hq : Names Register.isReadable q u)
      (ho : OptionalOffset o ts) :
      Derives debugStrings (.indexed op) (t :: u :: ts) (.fixed (.indexed op r q o))
  | jump {t : Token} {kind : JumpKind} {a : AddressOperand} (ha : Locates 0 lastAddress a t) :
      Derives debugStrings (.jump kind) [t] (.jump kind a)
  | jr {t : Token} {r : Register} (hr : Names Register.isReadable r t) :
      Derives debugStrings .jr [t] (.fixed (.jumpReg r))

variable {anchor : Token} {ts : List Token}

theorem reads_stackRegister_end {r : Register} :
    Reads stackRegister anchor ts r [] ↔ OptionalStack r ts := by
  simp [OptionalStack]
  grind [startsWithRegister]

theorem reads_offsetRegister_end {o : Option Register} :
    Reads offsetRegister anchor ts o [] ↔ OptionalOffset o ts := by
  simp [OptionalOffset]
  grind [startsWithRegister]

instance lawful_operation (n : Nat) (m : Mnemonic) : Lawful (operation n m) := by
  cases m with
  | test op immediate => cases immediate <;> (unfold operation; infer_instance)
  | _ => unfold operation; infer_instance

/-! A choice inside a statement is followed by the rest of the statement in both of its branches. -/

theorem reads_accessible {isStore : Bool} {k : Register → Reading Operation}
    [hk : ∀ r, Lawful (k r)] {o : Operation} {rest : List Token} :
    Reads (if isStore = true then readable >>= k else writeable >>= k) anchor ts o rest ↔
      ∃ r mid, (∃ t, ts = t :: mid ∧ Names (Register.isAccessible isStore) r t) ∧
        Reads (k r) anchor mid o rest := by
  cases isStore with
  | false =>
    rw [if_neg (by decide), reads_bind]
    simp only [reads_writeable]
    rfl
  | true =>
    rw [if_pos rfl, reads_bind]
    simp only [reads_readable]
    rfl

theorem reads_accessAddress {op : AccessOp} {k : AddressOperand → Reading Operation}
    [hk : ∀ a, Lawful (k a)] {o : Operation} {rest : List Token} :
    Reads (if op = .li then address (-32768) 65535 >>= k else address 0 lastAddress >>= k)
        anchor ts o rest ↔
      ∃ a mid, (∃ t, ts = t :: mid ∧ AccessAddress op a t) ∧ Reads (k a) anchor mid o rest := by
  by_cases hop : op = .li
  · rw [if_pos hop, reads_bind]
    simp only [reads_address, AccessAddress, if_pos hop]
  · rw [if_neg hop, reads_bind]
    simp only [reads_address, AccessAddress, if_neg hop]

theorem derives_of_reads {n : Nat} {m : Mnemonic} {o : Operation}
    (h : Reads (operation n m) anchor ts o []) : Derives n m ts o := by
  cases m with
  | sys =>
    simp only [operation, reads_bind, reads_pure, reads_systemCall] at h
    obtain ⟨_, _, ⟨t, call, rfl, hc, rfl⟩, rfl, rfl⟩ := h
    exact .sys hc
  | mv =>
    simp only [operation, reads_bind, reads_pure, reads_writeable, reads_readable] at h
    obtain ⟨r, _, ⟨t, rfl, hr⟩, q, _, ⟨u, rfl, hq⟩, rfl, rfl⟩ := h
    exact .mv hr hq
  | inc =>
    simp only [operation, reads_bind, reads_pure, reads_ite, reads_writeable,
      reads_constantFollows, reads_nibble] at h
    obtain ⟨r, _, ⟨t, rfl, hr⟩, _, _, ⟨-, rfl⟩,
      ⟨-, _, _, ⟨k, u, rfl, hk, rfl⟩, rfl, rfl⟩ | ⟨-, _, _, ⟨rfl, rfl⟩, rfl, rfl⟩⟩ := h
    · exact .inc hr hk
    · exact .incOne hr
  | dec =>
    simp only [operation, reads_bind, reads_pure, reads_ite, reads_writeable,
      reads_constantFollows, reads_nibble] at h
    obtain ⟨r, _, ⟨t, rfl, hr⟩, _, _, ⟨-, rfl⟩,
      ⟨-, _, _, ⟨k, u, rfl, hk, rfl⟩, rfl, rfl⟩ | ⟨-, _, _, ⟨rfl, rfl⟩, rfl, rfl⟩⟩ := h
    · exact .dec hr hk
    · exact .decOne hr
  | seti =>
    simp only [operation, reads_bind, reads_pure, reads_writeable, reads_nibble] at h
    obtain ⟨r, _, ⟨t, rfl, hr⟩, _, _, ⟨k, u, rfl, hk, rfl⟩, rfl, rfl⟩ := h
    exact .seti hr hk
  | mcp =>
    simp only [operation, reads_bind, reads_pure, reads_readable, reads_integer] at h
    obtain ⟨r, _, ⟨t, rfl, hr⟩, q, _, ⟨u, rfl, hq⟩, k, _, ⟨v, rfl, hk⟩, rfl, rfl⟩ := h
    exact .mcp hr hq hk
  | debug =>
    simp only [operation, reads_bind, reads_pure, reads_ite, reads_string] at h
    obtain ⟨_, _, ⟨t, rfl, ht, rfl⟩, ⟨-, _, _, hc, -⟩ | ⟨hn, rfl, rfl⟩⟩ := h
    · exact absurd hc not_reads_complainAtAnchor
    · exact .debug ht (Nat.le_of_not_lt hn)
  | nop =>
    simp only [operation, reads_pure] at h
    obtain ⟨rfl, rfl⟩ := h
    exact .nop
  | imm =>
    simp only [operation, reads_bind, reads_pure, reads_binaryOp, reads_writeable,
      reads_word] at h
    obtain ⟨op, _, ⟨t, rfl, ho, hb⟩, r, _, ⟨u, rfl, hr⟩, _, _, ⟨k, v, rfl, hk, rfl⟩, rfl, rfl⟩ := h
    exact .imm ho hb hr hk
  | arith op =>
    simp only [operation, reads_bind, reads_pure, reads_ite, reads_writeable, reads_readable] at h
    obtain ⟨r, _, ⟨t, rfl, hr⟩,
      ⟨hu, _, _, ⟨rfl, rfl⟩, rfl, rfl⟩ | ⟨hb, q, _, ⟨u, rfl, hq⟩, rfl, rfl⟩⟩ := h
    · exact .unary hu hr
    · exact .binary (by simpa using hb) hr hq
  | push =>
    simp only [operation, reads_bind, reads_pure, reads_readable] at h
    obtain ⟨r, _, ⟨t, rfl, hr⟩, s, _, hs, rfl, rfl⟩ := h
    exact .push hr (reads_stackRegister_end.mp hs)
  | pop =>
    simp only [operation, reads_bind, reads_pure, reads_writeable] at h
    obtain ⟨r, _, ⟨t, rfl, hr⟩, s, _, hs, rfl, rfl⟩ := h
    exact .pop hr (reads_stackRegister_end.mp hs)
  | sop =>
    simp only [operation, reads_bind, reads_pure, reads_arithOp] at h
    obtain ⟨op, _, ⟨t, rfl, ho⟩, s, _, hs, rfl, rfl⟩ := h
    exact .sop ho (reads_stackRegister_end.mp hs)
  | rearrange op =>
    simp only [operation, reads_bind, reads_pure] at h
    obtain ⟨s, _, hs, rfl, rfl⟩ := h
    exact .rearrange (reads_stackRegister_end.mp hs)
  | pushi =>
    simp only [operation, reads_bind, reads_pure, reads_word] at h
    obtain ⟨_, _, ⟨k, t, rfl, hk, rfl⟩, s, _, hs, rfl, rfl⟩ := h
    exact .pushi hk (reads_stackRegister_end.mp hs)
  | test op immediate =>
    cases immediate with
    | false =>
      simp only [operation, reads_bind, reads_pure, reads_readable] at h
      obtain ⟨r, _, ⟨t, rfl, hr⟩, q, _, ⟨u, rfl, hq⟩, rfl, rfl⟩ := h
      exact .test hr hq
    | true =>
      simp only [operation, reads_bind, reads_pure, reads_readable, reads_nibble] at h
      obtain ⟨r, _, ⟨t, rfl, hr⟩, _, _, ⟨k, u, rfl, hk, rfl⟩, rfl, rfl⟩ := h
      exact .testImm hr hk
  | access op withOffset =>
    simp only [operation, reads_accessible] at h
    obtain ⟨r, _, ⟨t, rfl, hr⟩, h⟩ := h
    cases withOffset with
    | false =>
      simp only [Bool.false_eq_true, if_false, reads_bind, reads_pure, reads_accessAddress] at h
      obtain ⟨_, _, ⟨rfl, rfl⟩, a, _, ⟨u, rfl, ha⟩, rfl, rfl⟩ := h
      exact .access hr ha
    | true =>
      simp only [if_true, reads_bind, reads_pure, reads_map, reads_readable,
        reads_accessAddress] at h
      obtain ⟨_, _, ⟨q, ⟨u, rfl, hq⟩, rfl⟩, a, _, ⟨v, rfl, ha⟩, rfl, rfl⟩ := h
      exact .accessOffset hr hq ha
  | indexed op =>
    simp only [operation, reads_accessible, reads_bind, reads_pure, reads_readable] at h
    obtain ⟨r, _, ⟨t, rfl, hr⟩, q, _, ⟨u, rfl, hq⟩, p, _, ho, rfl, rfl⟩ := h
    exact .indexed hr hq (reads_offsetRegister_end.mp ho)
  | jump kind =>
    simp only [operation, reads_bind, reads_pure, reads_address] at h
    obtain ⟨a, _, ⟨t, rfl, ha⟩, rfl, rfl⟩ := h
    exact .jump ha
  | jr =>
    simp only [operation, reads_bind, reads_pure, reads_readable] at h
    obtain ⟨r, _, ⟨t, rfl, hr⟩, rfl, rfl⟩ := h
    exact .jr hr

theorem reads_of_derives {n : Nat} {m : Mnemonic} {o : Operation} (h : Derives n m ts o) :
    Reads (operation n m) anchor ts o [] := by
  cases h with
  | sys hc =>
    simp only [operation, reads_bind, reads_pure, reads_systemCall]
    exact ⟨_, _, ⟨_, _, rfl, hc, rfl⟩, rfl, rfl⟩
  | mv hr hq =>
    simp only [operation, reads_bind, reads_pure, reads_writeable, reads_readable]
    exact ⟨_, _, ⟨_, rfl, hr⟩, _, _, ⟨_, rfl, hq⟩, rfl, rfl⟩
  | inc hr hn | dec hr hn =>
    simp only [operation, reads_bind, reads_pure, reads_ite, reads_writeable,
      reads_constantFollows, reads_nibble]
    exact ⟨_, _, ⟨_, rfl, hr⟩, _, _, ⟨rfl, rfl⟩,
      .inl ⟨hn.starts [], _, _, ⟨_, _, rfl, hn, rfl⟩, rfl, rfl⟩⟩
  | incOne hr | decOne hr =>
    simp only [operation, reads_bind, reads_pure, reads_ite, reads_writeable,
      reads_constantFollows, reads_nibble]
    exact ⟨_, _, ⟨_, rfl, hr⟩, _, _, ⟨rfl, rfl⟩,
      .inr ⟨Bool.false_ne_true, _, _, ⟨rfl, rfl⟩, rfl, rfl⟩⟩
  | seti hr hn =>
    simp only [operation, reads_bind, reads_pure, reads_writeable, reads_nibble]
    exact ⟨_, _, ⟨_, rfl, hr⟩, _, _, ⟨_, _, rfl, hn, rfl⟩, rfl, rfl⟩
  | mcp hr hq hn =>
    simp only [operation, reads_bind, reads_pure, reads_readable, reads_integer]
    exact ⟨_, _, ⟨_, rfl, hr⟩, _, _, ⟨_, rfl, hq⟩, _, _, ⟨_, rfl, hn⟩, rfl, rfl⟩
  | debug ht hd =>
    simp only [operation, reads_bind, reads_pure, reads_ite, reads_string]
    exact ⟨_, _, ⟨_, rfl, ht, rfl⟩, .inr ⟨Nat.not_lt_of_le hd, rfl, rfl⟩⟩
  | nop => exact reads_pure.mpr ⟨rfl, rfl⟩
  | imm ho hb hr hn =>
    simp only [operation, reads_bind, reads_pure, reads_binaryOp, reads_writeable, reads_word]
    exact ⟨_, _, ⟨_, rfl, ho, hb⟩, _, _, ⟨_, rfl, hr⟩, _, _, ⟨_, _, rfl, hn, rfl⟩, rfl, rfl⟩
  | binary hb hr hq =>
    simp only [operation, reads_bind, reads_pure, reads_ite, reads_writeable, reads_readable]
    exact ⟨_, _, ⟨_, rfl, hr⟩, .inr ⟨by simp [hb], _, _, ⟨_, rfl, hq⟩, rfl, rfl⟩⟩
  | unary hu hr =>
    simp only [operation, reads_bind, reads_pure, reads_ite, reads_writeable, reads_readable]
    exact ⟨_, _, ⟨_, rfl, hr⟩, .inl ⟨hu, _, _, ⟨rfl, rfl⟩, rfl, rfl⟩⟩
  | push hr hs =>
    simp only [operation, reads_bind, reads_pure, reads_readable]
    exact ⟨_, _, ⟨_, rfl, hr⟩, _, _, reads_stackRegister_end.mpr hs, rfl, rfl⟩
  | pop hr hs =>
    simp only [operation, reads_bind, reads_pure, reads_writeable]
    exact ⟨_, _, ⟨_, rfl, hr⟩, _, _, reads_stackRegister_end.mpr hs, rfl, rfl⟩
  | sop ho hs =>
    simp only [operation, reads_bind, reads_pure, reads_arithOp]
    exact ⟨_, _, ⟨_, rfl, ho⟩, _, _, reads_stackRegister_end.mpr hs, rfl, rfl⟩
  | rearrange hs =>
    simp only [operation, reads_bind, reads_pure]
    exact ⟨_, _, reads_stackRegister_end.mpr hs, rfl, rfl⟩
  | pushi hn hs =>
    simp only [operation, reads_bind, reads_pure, reads_word]
    exact ⟨_, _, ⟨_, _, rfl, hn, rfl⟩, _, _, reads_stackRegister_end.mpr hs, rfl, rfl⟩
  | test hr hq =>
    simp only [operation, reads_bind, reads_pure, reads_readable]
    exact ⟨_, _, ⟨_, rfl, hr⟩, _, _, ⟨_, rfl, hq⟩, rfl, rfl⟩
  | testImm hr hn =>
    simp only [operation, reads_bind, reads_pure, reads_readable, reads_nibble]
    exact ⟨_, _, ⟨_, rfl, hr⟩, _, _, ⟨_, _, rfl, hn, rfl⟩, rfl, rfl⟩
  | access hr ha =>
    simp only [operation, reads_accessible, Bool.false_eq_true, if_false, reads_bind,
      reads_pure, reads_accessAddress]
    exact ⟨_, _, ⟨_, rfl, hr⟩, _, _, ⟨rfl, rfl⟩, _, _, ⟨_, rfl, ha⟩, rfl, rfl⟩
  | accessOffset hr hq ha =>
    simp only [operation, reads_accessible, if_true, reads_bind, reads_pure, reads_map,
      reads_readable, reads_accessAddress]
    exact ⟨_, _, ⟨_, rfl, hr⟩, _, _, ⟨_, ⟨_, rfl, hq⟩, rfl⟩, _, _, ⟨_, rfl, ha⟩, rfl, rfl⟩
  | indexed hr hq ho =>
    simp only [operation, reads_accessible, reads_bind, reads_pure, reads_readable]
    exact ⟨_, _, ⟨_, rfl, hr⟩, _, _, ⟨_, rfl, hq⟩, _, _, reads_offsetRegister_end.mpr ho, rfl, rfl⟩
  | jump ha =>
    simp only [operation, reads_bind, reads_pure, reads_address]
    exact ⟨_, _, ⟨_, rfl, ha⟩, rfl, rfl⟩
  | jr hr =>
    simp only [operation, reads_bind, reads_pure, reads_readable]
    exact ⟨_, _, ⟨_, rfl, hr⟩, rfl, rfl⟩

/-- A statement is read without complaint exactly where the grammar derives it. -/
theorem reads_operation {n : Nat} {m : Mnemonic} {o : Operation} :
    Reads (operation n m) anchor ts o [] ↔ Derives n m ts o :=
  ⟨derives_of_reads, reads_of_derives⟩

/-- A line of the text segment, from its first token on, stands for an operation. -/
def Stands (debugStrings : Nat) (first : Token) (operands : List Token) (o : Operation) : Prop :=
  first.kind = .identifier ∧ ∃ m implied, Mnemonic.ofWord? first.text = some (m, implied) ∧
    Derives debugStrings m ((implied.map (first.inPlace .identifier)).toList ++ operands) o

/-- A line of the text segment is read without complaint exactly where it stands for something. -/
theorem operation_eq_iff {n : Nat} {first : Token} {operands : List Token} {o : Operation} :
    Draft.operation n first operands = (o, []) ↔ Stands n first operands o := by
  by_cases hk : first.kind = .identifier
  · rcases hw : Mnemonic.ofWord? first.text with _ | ⟨m, implied⟩
    · simp [Draft.operation, Stands, hk, hw]
    · simp only [Draft.operation, Stands, hk, hw, all_eq_iff, reads_operation, ne_eq, not_true,
        if_false, true_and, Option.some.injEq, Prod.mk.injEq]
      constructor
      · intro h
        exact ⟨m, implied, ⟨rfl, rfl⟩, h⟩
      · rintro ⟨_, _, ⟨rfl, rfl⟩, h⟩
        exact h
  · simp [Draft.operation, Stands, hk]

end Minicomputer.Assembly
