import Minicomputer.Proofs.Assembly.Acceptance

/-!
# The code of a program

Statements read without complaint make instructions whose fields all have a place in their words.
The code of a program is therefore that of the instructions of its text lines and nothing else, and
a sweep through it finds them again.
-/

set_option autoImplicit false

namespace Minicomputer.Assembly

open Reading

theorem Reading.Denotes.toNat_ofNat {n : Int} {t : Token} (h : Denotes 0 15 n t) :
    (UInt8.ofNat n.toNat).toNat ≤ 15 := by
  obtain ⟨-, -, h0, h1⟩ := h
  rw [UInt8.toNat_ofNat']
  omega

theorem Reading.Denotes.toNat_ofInt {high n : Int} {t : Token} (h : Denotes 0 high n t)
    (hh : high < 65536) : ((Word.ofInt n).toNat : Int) ≤ high := by
  obtain ⟨-, -, h0, h1⟩ := h
  rw [Word.toNat_ofInt (by omega) (by omega)]
  omega

/-- An address operand lies in memory, be it a number or a label. -/
theorem address_le {labels : Addresses} {a : AddressOperand} {t : Token} {w : Word}
    (ha : Locates 0 lastAddress a t) (hw : a.resolve? labels = some w)
    (hr : ∀ u, a = .label u → ∃ n, labels.lookup u.text = some n ∧ 0 ≤ n ∧ n ≤ lastAddress) :
    w.toNat ≤ 4095 := by
  rcases ha with ⟨n, hn, rfl⟩ | ⟨-, rfl⟩
  · cases hw
    have := hn.toNat_ofInt (by decide)
    simp only [lastAddress] at this
    omega
  · obtain ⟨n, hl, h0, h1⟩ := hr t rfl
    simp only [AddressOperand.resolve?, hl, Option.map_some, Option.some.injEq] at hw
    subst hw
    simp only [lastAddress] at h1
    rw [Word.toNat_ofInt h0 (by omega)]
    omega

theorem OptionalStack.writeable {r : Register} {ts : List Token} (h : OptionalStack r ts) :
    r.isWriteable = true := by
  obtain ⟨_, -, -, hr⟩ | ⟨-, rfl⟩ := h
  · exact hr
  · rfl

theorem OptionalOffset.bounds {o : Option Register} {ts : List Token} (h : OptionalOffset o ts) :
    ∀ r ∈ o, r.isReadable = true ∧ r ≠ .pc := by
  obtain ⟨_, r, -, ⟨-, hr⟩, hp, rfl⟩ | ⟨-, rfl⟩ := h
  · intro q hq
    cases hq
    exact ⟨hr, hp⟩
  · intro q hq
    cases hq

/-- Operands read without complaint are within the bounds of the instruction that they make. -/
theorem emittable_of_derives {n : Nat} {m : Mnemonic} {ts : List Token} {o : Operation}
    {labels : Addresses} {i : Instruction} (h : Derives n m ts o) (hm : m ≠ .access .li true)
    (hr : Resolved labels o) (hi : o.instruction? labels = some i) :
    i.Emittable ∨ ∃ index, i = .debug index := by
  cases h with
  | @sys t call hc =>
    cases hi
    exact .inl (by cases call <;> rfl)
  | mv ht hs =>
    cases hi
    exact .inl ⟨ht.2, hs.2⟩
  | inc ht hn | dec ht hn | seti ht hn =>
    cases hi
    exact .inl ⟨ht.2, hn.toNat_ofNat⟩
  | incOne ht | decOne ht =>
    cases hi
    exact .inl ⟨ht.2, by decide⟩
  | mcp hs ht hn =>
    cases hi
    have := hn.toNat_ofInt (by decide)
    exact .inl ⟨hs.2, ht.2, by omega⟩
  | debug =>
    cases hi
    exact .inr ⟨_, rfl⟩
  | nop =>
    cases hi
    exact .inl trivial
  | imm ho hb ht hn =>
    cases hi
    exact .inl ⟨hb, ht.2⟩
  | binary hb ht hs =>
    cases hi
    exact .inl ⟨ht.2, hs.2, fun hu => absurd (hb.symm.trans hu) (by decide)⟩
  | unary hu ht =>
    cases hi
    exact .inl ⟨ht.2, Register.readable_of_writeable ht.2, fun _ => rfl⟩
  | push ht hs =>
    cases hi
    exact .inl ⟨ht.2, hs.writeable⟩
  | pop ht hs =>
    cases hi
    exact .inl ⟨ht.2, hs.writeable⟩
  | sop ho hs | rearrange hs | pushi hn hs =>
    cases hi
    exact .inl hs.writeable
  | test hl hs =>
    cases hi
    exact .inl ⟨hl.2, hs.2⟩
  | testImm hl hn =>
    cases hi
    exact .inl ⟨hl.2, hn.toNat_ofNat⟩
  | @access t u op r a ht ha =>
    obtain ⟨w, hw, rfl⟩ := Option.map_eq_some_iff.mp hi
    refine .inl ⟨ht.2, by simp, fun _ => rfl, fun hop => ?_⟩
    rw [AccessAddress, if_neg hop] at ha
    refine address_le ha hw fun v hv => ?_
    subst hv
    obtain ⟨k, hk, hb⟩ := hr v _ rfl
    exact ⟨k, hk, hb (by simpa using hop)⟩
  | @accessOffset t u v op r q a ht hq ha =>
    obtain ⟨w, hw, rfl⟩ := Option.map_eq_some_iff.mp hi
    have hop : op ≠ .li := fun e => hm (by rw [e])
    refine .inl ⟨ht.2, by simpa using hq.2, fun e => absurd e hop, fun _ => ?_⟩
    rw [AccessAddress, if_neg hop] at ha
    refine address_le ha hw fun v hv => ?_
    subst hv
    obtain ⟨k, hk, hb⟩ := hr v _ rfl
    exact ⟨k, hk, hb (by simpa using hop)⟩
  | indexed ht hb ho =>
    cases hi
    exact .inl ⟨ht.2, hb.2, ho.bounds⟩
  | @jump t kind a ha =>
    obtain ⟨w, hw, rfl⟩ := Option.map_eq_some_iff.mp hi
    refine .inl (address_le ha hw fun v hv => ?_)
    subst hv
    obtain ⟨k, hk, hb⟩ := hr v _ rfl
    exact ⟨k, hk, hb rfl⟩
  | jr ht =>
    cases hi
    exact .inl ht.2

theorem ofName?_ne_offset (s : String) : Mnemonic.ofName? s ≠ some (.access .li true) := by
  intro h
  have hl : Mnemonic.plain.lookup s ≠ some (.access .li true) := by
    intro hl
    obtain ⟨_, _, he, -⟩ := List.lookup_eq_some_iff.mp hl
    have hm : (s, Mnemonic.access .li true) ∈ Mnemonic.plain := by simp [he]
    simp [Mnemonic.plain] at hm
  have ha : AccessOp.ofMnemonic? s ≠ some (.li, true) := by
    intro ha
    unfold AccessOp.ofMnemonic? at ha
    split at ha <;> simp at ha
  simp [Mnemonic.ofName?, hl, ha] at h

theorem ofWord?_ne_offset {word : String} {m : Mnemonic} {implied : Option String}
    (h : Mnemonic.ofWord? word = some (m, implied)) : m ≠ .access .li true := by
  rintro rfl
  simp only [Mnemonic.ofWord?] at h
  split at h
  · cases h
  · split at h
    · next hn =>
      cases h
      exact ofName?_ne_offset _ hn
    · split at h
      · cases h
      · simp at h

theorem emittable_of_stands {n : Nat} {first : Token} {operands : List Token} {o : Operation}
    {labels : Addresses} {i : Instruction} (h : Stands n first operands o)
    (hr : Resolved labels o) (hi : o.instruction? labels = some i) :
    i.Emittable ∨ ∃ index, i = .debug index := by
  obtain ⟨-, m, implied, hw, hd⟩ := h
  exact emittable_of_derives hd (ofWord?_ne_offset hw) hr hi

/-- A resolved operation that some operands stand for is an instruction. -/
theorem instruction_of_derives {n : Nat} {m : Mnemonic} {ts : List Token} {o : Operation}
    {labels : Addresses} (h : Derives n m ts o) (hr : Resolved labels o) :
    ∃ i, o.instruction? labels = some i := by
  have ha (a : AddressOperand)
      (hl : ∀ t, a = .label t → ∃ k, labels.lookup t.text = some k) :
      ∃ w, a.resolve? labels = some w := by
    cases a with
    | value w => exact ⟨w, rfl⟩
    | label t =>
      obtain ⟨k, hk⟩ := hl t rfl
      exact ⟨Word.ofInt k, by simp [AddressOperand.resolve?, hk]⟩
  cases h with
  | @access _ _ op r a | @accessOffset _ _ _ op r q a | @jump _ kind a =>
    obtain ⟨w, hw⟩ := ha a fun t e => by
      subst e
      obtain ⟨k, hk, -⟩ := hr t _ rfl
      exact ⟨k, hk⟩
    exact ⟨_, Option.map_eq_some_iff.mpr ⟨w, hw, rfl⟩⟩
  | _ => exact ⟨_, rfl⟩

theorem canonical_of_stands {n : Nat} {first : Token} {operands : List Token} {o : Operation}
    {labels : Addresses} (h : Stands n first operands o) (hr : Resolved labels o) :
    ∃ i, o.instruction? labels = some i ∧ i.Canonical := by
  obtain ⟨_, m, implied, _, hd⟩ := id h
  obtain ⟨i, hi⟩ := instruction_of_derives hd hr
  refine ⟨i, hi, ?_⟩
  obtain he | ⟨index, rfl⟩ := emittable_of_stands h hr hi
  · exact Instruction.canonical_of_emittable he
  · trivial

theorem encode_of_instruction? {labels : Addresses} {o : Operation} {i : Instruction}
    (h : o.instruction? labels = some i) : o.encode labels = i.encode := by
  rw [Operation.encode, h]
  rfl

/-! ### Text lines -/

/-- The lines that make statements, which leaves out notes. -/
def textLines (es : List Entry) : List TextLine :=
  es.filterMap fun
    | .statement l => some l
    | _ => none

/-- The instruction of a text line, where labels have given addresses. -/
def Gives (labels : Addresses) (l : TextLine) (i : Instruction) : Prop :=
  ∃ o, Stands l.debugStrings l.first l.operands o ∧ o.instruction? labels = some i

theorem gives_of_lines {labels : Addresses} {es : List Entry}
    (h : ∀ l, Entry.statement l ∈ es →
      Stands l.debugStrings l.first l.operands l.operation ∧ Resolved labels l.operation) :
    ∃ is, List.Forall₂ (Gives labels) (textLines es) is ∧ (∀ i ∈ is, i.Canonical) ∧
      es.flatMap (·.codeBytes labels) = is.flatMap Instruction.encode := by
  induction es with
  | nil => exact ⟨[], .nil, by simp, rfl⟩
  | cons e es ih =>
    obtain ⟨is, hg, hc, hb⟩ := ih fun l hl => h l (List.mem_cons_of_mem _ hl)
    cases e with
    | statement l =>
      obtain ⟨hs, hr⟩ := h l List.mem_cons_self
      obtain ⟨i, hi, hic⟩ := canonical_of_stands hs hr
      refine ⟨i :: is, .cons ⟨_, hs, hi⟩ hg, by simpa using ⟨hic, hc⟩, ?_⟩
      rw [List.flatMap_cons, List.flatMap_cons, hb, ← encode_of_instruction? hi]
      rfl
    | label | note | datum => exact ⟨is, hg, hc, hb⟩

/-- The code of a program is that of the instructions of its text lines, in their order, and a sweep
through the code finds just these instructions. -/
theorem code_of_text_lines {settings : Settings} {source : String} {p : Program}
    (h : (assemble settings source).program = some p) :
    ∃ is, List.Forall₂ (Gives (assemble settings source).labels)
        (textLines (entries settings source)) is ∧
      p.code = is.flatMap Instruction.encode ∧ Instruction.sweep p.code = some is := by
  obtain ⟨is, hg, hc, hb⟩ := gives_of_lines fun l hl => stands_of_accepted (accepted_of_some h) hl
  rw [code_of_some h, hb]
  exact ⟨is, hg, rfl, Instruction.sweep_flatMap_encode is hc⟩

theorem code_of_countdown :
    ∃ p is, (assemble {} "li t0 9\n@line 3\nagain: dec t0\ngti t0 0\njnz again").program = some p ∧
      is = [.access .li .t0 none 9, .dec .t0 1, .testImm .gt .t0 0, .jump .jnz 4] ∧
      p.code = is.flatMap Instruction.encode ∧ Instruction.sweep p.code = some is := by
  have hp : ((assemble {} "li t0 9\n@line 3\nagain: dec t0\ngti t0 0\njnz again").program.map
      (·.code)) = some [0x8F, 0x00, 0x00, 0x09, 0x03, 0x01, 0x3A, 0x00, 0xE0, 0x04] := by
    decide_cbv
  obtain ⟨p, hp, hc⟩ := Option.map_eq_some_iff.mp hp
  obtain ⟨is, -, hb, hs⟩ := code_of_text_lines hp
  have he : Instruction.sweep p.code =
      some [.access .li .t0 none 9, .dec .t0 1, .testImm .gt .t0 0, .jump .jnz 4] := by
    rw [hc]
    exact Instruction.sweep_flatMap_encode
      [.access .li .t0 none 9, .dec .t0 1, .testImm .gt .t0 0, .jump .jnz 4]
      (by simp [Instruction.Canonical]; decide)
  exact ⟨p, is, hp, Option.some.inj (hs.symm.trans he), hb, hs⟩

end Minicomputer.Assembly
