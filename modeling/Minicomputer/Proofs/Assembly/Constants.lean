import Minicomputer.Proofs.Assembly.Recognition
import Minicomputer.Proofs.Token.Numerals

/-!
# Constants

A number as an operand is accepted exactly where its token has a value and this value is within the
bounds of the operand. So `li` and `pushi` take any number that is a word, signed or not, in whatever
base it is written, and complain about the range of any other.
-/

set_option autoImplicit false

namespace Minicomputer

theorem Word.toNat_ofInt_eq_emod (z : Int) : ((Word.ofInt z).toNat : Int) = z % 65536 := by
  rw [ofInt, UInt16.toNat_ofNat']
  omega

namespace Assembly

open Reading Instruction
open Token (Piece Spells Lexes Numeral spaced broken lexes_name)

/-! ### Reading numbers -/

namespace Reading

variable {α β : Type} {anchor t : Token} {rest : List Token}

theorem run_bind_of_run {r : Reading α} {k : α → Reading β} {s u : Operands} {a : α}
    (h : r.run s = (a, u)) : (r >>= k).run s = (k a).run u := by
  rw [StateT.run_bind, h]
  rfl

theorem isConstant_of_isNumber (h : t.isNumber = true) : isConstant t = true := by
  rw [isConstant, h, Bool.true_or]

theorem constant?_of_isNumber (h : t.isNumber = true) : constant? t = t.value? := by
  have hchar : t.kind ≠ .char := by
    intro hk
    simp [Token.isNumber, hk] at h
  unfold constant?
  split
  · next hk => exact absurd hk hchar
  · rfl

/-- A number is accepted where its value is within the bounds. -/
theorem reads_integer_iff_of_isNumber (h : t.isNumber = true) {low high z : Int} :
    Reads (integer low high) anchor (t :: rest) z rest ↔
      t.value? = some z ∧ low ≤ z ∧ z ≤ high := by
  have hc := isConstant_of_isNumber h
  have hv := constant?_of_isNumber h
  simp [Denotes, hc, hv]

/-- Otherwise the complaint about its range is the only one. -/
theorem run_integer_of_outOfRange (h : t.isNumber = true) {low high : Int}
    (hv : ∀ z ∈ t.value?, ¬ (low ≤ z ∧ z ≤ high)) :
    (integer low high).run ⟨anchor, t :: rest, []⟩ =
      (0, ⟨anchor, rest, [⟨t, .outOfRange low high⟩]⟩) := by
  have hc : (!isConstant t) = false := by rw [isConstant_of_isNumber h]; rfl
  have hnext : next?.run ⟨anchor, t :: rest, []⟩ = (some t, ⟨anchor, rest, []⟩) := rfl
  rw [integer, run_bind_of_run hnext]
  dsimp only
  rw [hc, constant?_of_isNumber h]
  cases hz : t.value? with
  | none => rfl
  | some z =>
    dsimp only
    rw [if_neg (hv z hz)]
    rfl

end Reading

/-! ### Lines that end with a constant -/

/-- Some pieces with a constant behind them are read as an instruction with the word that is read from
the constant, and the complaints are those about the constant. -/
def TakesWord (w : Piece) (ws : List Piece) (make : Word → Instruction) : Prop :=
  ∀ (k : Nat) (first t : Token) (operands : List Token) (z : Int) (ds : List Diagnostic),
    Spells k first w → List.Forall₂ (Spells k) operands ws → isConstant t = true →
      (integer (-32768) 65535).run ⟨first, [t], []⟩ = (z, ⟨first, [], ds⟩) →
        Draft.operation 0 first (operands ++ [t]) =
          (.ofInstruction (make (Word.ofInt z)), ds)

theorem operation_of_run {first : Token} {ts : List Token} {m : Mnemonic} {o : Operation}
    {ds : List Diagnostic} (hf : first.kind = .identifier)
    (hm : Mnemonic.ofWord? first.text = some (m, none))
    (hr : (operation 0 m).run ⟨first, ts, []⟩ = (o, ⟨first, [], ds⟩)) :
    Draft.operation 0 first ts = (o, ds) := by
  have hall : all first ts (operation 0 m) = (o, ds) := by
    rw [all, hr]
    simp
  rw [Draft.operation, if_neg (by simp [hf]), hm]
  exact hall

theorem takesWord_li {r : Register} (hr : r.isWriteable = true) :
    TakesWord ⟨.identifier, "li"⟩ [registerPiece r] (.access .li r none) := by
  intro k first t operands z ds hf hops hc hz
  rcases hops with _ | ⟨ht, ⟨⟩⟩
  next target =>
  have hm : Mnemonic.ofWord? first.text = some (.access .li false, none) := by
    rw [hf.2.1]
    decide_cbv
  have htarget : writeable.run ⟨first, [target, t], []⟩ = (r, ⟨first, [t], []⟩) :=
    reads_writeable.mpr ⟨target, rfl, (names_iff ht).mpr ⟨rfl, hr⟩⟩
  have hfollows : constantFollows.run ⟨first, [t], []⟩ = (true, ⟨first, [t], []⟩) :=
    reads_constantFollows.mpr ⟨by simp [startsWithConstant, hc], rfl⟩
  have haddress : (address (-32768) 65535).run ⟨first, [t], []⟩ =
      (.value (Word.ofInt z), ⟨first, [], ds⟩) := by
    rw [address, run_bind_of_run hfollows, if_pos rfl, run_bind_of_run hz]
    rfl
  have hform : operation 0 (.access .li false) = (writeable >>= fun reg =>
      address (-32768) 65535 >>= fun a => pure (.access .li reg none a)) := rfl
  refine operation_of_run hf.1 hm ?_
  rw [hform, List.singleton_append, run_bind_of_run htarget, run_bind_of_run haddress]
  rfl

theorem takesWord_pushi : TakesWord ⟨.identifier, "pushi"⟩ [] (.pushImm · .sp) := by
  intro k first t operands z ds hf hops hc hz
  cases hops
  have hm : Mnemonic.ofWord? first.text = some (.pushi, none) := by
    rw [hf.2.1]
    decide_cbv
  have hword : word.run ⟨first, [t], []⟩ = (Word.ofInt z, ⟨first, [], ds⟩) := by
    rw [word, run_bind_of_run hz]
    rfl
  refine operation_of_run hf.1 hm ?_
  rw [operation, List.nil_append, run_bind_of_run hword]
  rfl

/-! ### Sources of one line -/

variable (settings : Settings)

/-- The draft of a line of pieces that begins with a word. -/
theorem draft_of_line {source : String} {w : Piece} {ws : List Piece}
    (hs : source.toList = spaced (w :: ws)) (hl : ∀ v ∈ w :: ws, Lexes v)
    (hw : w.kind = .identifier) :
    ∃ first operands, Spells 1 first w ∧ List.Forall₂ (Spells 1) operands ws ∧
      ∀ i ds, Draft.operation 0 first operands = (.ofInstruction i, ds) →
        draft { settings with commentLeader := Token.defaultLeader } source =
          { statements := [⟨first, .ofInstruction i, ds⟩].toArray } := by
  have hbroken : source.toList = broken [w :: ws] := by simpa [broken] using hs
  obtain ⟨tss, htss, hlines⟩ := lines_of_broken hbroken (by simpa using hl) (by simp)
  rcases htss with _ | ⟨hts, ⟨⟩⟩
  rcases hts with _ | ⟨hf, hops⟩
  next first operands =>
  refine ⟨first, operands, hf, hops, fun i ds ho => ?_⟩
  have hline : Draft.addLine settings.images {} (first :: operands) =
      Draft.addStatement {} [] first operands :=
    addLine_of_identifier settings.images rfl (List.forall_mem_nil _) (hf.1.trans hw)
  rw [draft, Draft.ofTokens, hlines]
  show Draft.close (Draft.addLine settings.images {} (first :: operands)) = _
  rw [hline, Draft.addStatement, ho]
  cases i <;> rfl

theorem diagnostics_of_statement (first : Token) (i : Instruction) (ds : List Diagnostic) :
    Draft.diagnostics { statements := [⟨first, .ofInstruction i, ds⟩].toArray } =
      Diagnostic.inOrder ds := by
  have hlabels (labels : Addresses) :
      Statement.labelDiagnostics labels ⟨first, .ofInstruction i, ds⟩ = [] := by
    rw [Statement.labelDiagnostics, label?_ofInstruction]
  have hsize : Draft.sizeDiagnostics { statements := [⟨first, .ofInstruction i, ds⟩].toArray } =
      [] := by
    refine sizeDiagnostics_eq_nil_iff.mpr ?_
    show (Operation.ofInstruction i).size + 0 + 0 ≤ memorySize
    have hs := i.size_eq_two_or_four
    rw [size_ofInstruction, memorySize]
    omega
  simp [Draft.diagnostics, hsize, hlabels]

/-- What is made of a source with a numeral for a word. If the numeral is a word, signed or not, the
code is that of an instruction with the word. Otherwise the range of the numeral is complained about,
and nothing else. -/
def LoadsWord (source : String) (n : Numeral) (make : Word → Instruction) : Prop :=
  let outcome := assemble { settings with commentLeader := Token.defaultLeader } source
  (-32768 ≤ n.value ∧ n.value ≤ 65535 → outcome.diagnostics = [] ∧ ∃ p w,
    outcome.program = some p ∧ (w.toNat : Int) = n.value % 65536 ∧ p.code = (make w).encode ∧
      p.data = []) ∧
  (¬ (-32768 ≤ n.value ∧ n.value ≤ 65535) → outcome.program = none ∧ ∃ t : Token,
    Spells 1 t n.piece ∧ outcome.diagnostics = [⟨t, .outOfRange (-32768) 65535⟩])

theorem exists_concat_of_forall₂ {α β : Type} {R : α → β → Prop} {as : List α} {bs : List β} {b : β}
    (h : List.Forall₂ R as (bs ++ [b])) :
    ∃ front a, as = front ++ [a] ∧ List.Forall₂ R front bs ∧ R a b := by
  have hfront := List.forall₂_take_append as bs [b] h
  have hlast := List.forall₂_drop_append as bs [b] h
  generalize hd : as.drop bs.length = last at hlast
  rcases hlast with _ | ⟨hb, ⟨⟩⟩
  next a =>
  refine ⟨as.take bs.length, a, ?_, hfront, hb⟩
  rw [← hd, List.take_append_drop]

theorem loadsWord_of_takesWord {source : String} {w : Piece} {ws : List Piece}
    {make : Word → Instruction} {n : Numeral} (h : n.digits ≠ [])
    (hs : source.toList = spaced (w :: (ws ++ [n.piece]))) (hl : ∀ v ∈ w :: ws, Lexes v)
    (hw : w.kind = .identifier) (hm : TakesWord w ws make) :
    LoadsWord settings source n make := by
  have hall : ∀ v ∈ w :: (ws ++ [n.piece]), Lexes v := by
    rw [← List.cons_append, List.forall_mem_append]
    exact ⟨hl, by simpa using n.lexes_piece h⟩
  obtain ⟨first, operands, hf, hops, hdraft⟩ := draft_of_line settings hs hall hw
  obtain ⟨front, t, rfl, hfront, ht⟩ := exists_concat_of_forall₂ hops
  have hnumber : t.isNumber = true := Numeral.isNumber_of_kind ht.1
  have hread {z : Int} {ds : List Diagnostic}
      (hz : (integer (-32768) 65535).run ⟨first, [t], []⟩ = (z, ⟨first, [], ds⟩)) :=
    hdraft _ _ (hm 1 first t front z ds hf hfront (isConstant_of_isNumber hnumber) hz)
  constructor
  · intro hword
    have hz : t.value? = some n.value := by
      rw [n.value?_eq h ht.1 ht.2.1, if_pos (n.fits_of_word hword)]
    have hd := hread ((reads_integer_iff_of_isNumber hnumber).mpr ⟨hz, hword⟩)
    have hsize : ([make (Word.ofInt n.value)].flatMap encode).length ≤ memorySize := by
      have hs := (make (Word.ofInt n.value)).size_eq_two_or_four
      rw [List.flatMap_singleton, Instruction.encode_length, memorySize]
      omega
    obtain ⟨p, hp, hcode, hdata⟩ := assemble_of_statements hd rfl (by simp) hsize
    refine ⟨(program_isSome_iff _ _).mp (by rw [hp]; rfl), p, Word.ofInt n.value, hp,
      Word.toNat_ofInt_eq_emod _, ?_, hdata⟩
    rw [hcode, List.flatMap_singleton]
  · intro hnot
    have hz : ∀ z ∈ t.value?, ¬ (-32768 ≤ z ∧ z ≤ 65535) := by
      intro z hmem
      rw [n.value?_eq h ht.1 ht.2.1] at hmem
      split at hmem
      · cases hmem
        exact hnot
      · cases hmem
    have hd := hread (run_integer_of_outOfRange hnumber hz)
    have hdiagnostics : (assemble { settings with commentLeader := Token.defaultLeader }
        source).diagnostics = [⟨t, .outOfRange (-32768) 65535⟩] := by
      show (draft _ source).diagnostics = _
      rw [hd, diagnostics_of_statement]
      exact List.mergeSort_singleton _
    refine ⟨?_, t, ht, hdiagnostics⟩
    rw [← Option.not_isSome_iff_eq_none, program_isSome_iff, hdiagnostics]
    exact List.cons_ne_nil _ _

/-- A numeral of any length is one token with the value that its digits denote, or with none if there
is no room for it. As an operand it is accepted exactly where this value is within the bounds, and
elsewhere its range is all that is complained about. So `li` and `pushi` load each number from -32768
to 65535 as the word that it is modulo 65536, and reject any other. -/
theorem numerals_exact {n : Numeral} (h : n.digits ≠ []) :
    Token.scan n.text = [⟨n.kind, n.text, {}, n.text.length⟩, Token.endMark n.text.toList] ∧
    (∀ t : Token, t.kind = n.kind → t.text = n.text →
      t.value? = (if n.low ≤ n.value ∧ n.value ≤ n.high then some n.value else none) ∧
      ∀ (low high : Int) (anchor : Token) (rest : List Token),
        (∀ z, Reads (integer low high) anchor (t :: rest) z rest ↔
          t.value? = some z ∧ low ≤ z ∧ z ≤ high) ∧
        ((∀ z ∈ t.value?, ¬ (low ≤ z ∧ z ≤ high)) →
          (integer low high).run ⟨anchor, t :: rest, []⟩ =
            (0, ⟨anchor, rest, [⟨t, .outOfRange low high⟩]⟩))) ∧
    (∀ r : Register, r.isWriteable = true →
      LoadsWord settings ("li " ++ r.name ++ " " ++ n.text) n (.access .li r none)) ∧
    LoadsWord settings ("pushi " ++ n.text) n (.pushImm · .sp) := by
  refine ⟨Token.scan_of_lexes (n.lexes_piece h), fun t hkind htext => ?_, fun r hr => ?_, ?_⟩
  · have hnumber : t.isNumber = true := Numeral.isNumber_of_kind hkind
    exact ⟨n.value?_eq h hkind htext, fun low high anchor rest =>
      ⟨fun z => reads_integer_iff_of_isNumber hnumber, run_integer_of_outOfRange hnumber⟩⟩
  · refine loadsWord_of_takesWord settings h ?_ ?_ rfl (takesWord_li hr)
    · simp [spaced, registerPiece, Numeral.piece]
    · simpa using ⟨lexes_name (by decide_cbv), lexes_name r.isName_name⟩
  · refine loadsWord_of_takesWord settings h ?_ ?_ rfl takesWord_pushi
    · simp [spaced, Numeral.piece]
    · simpa using lexes_name (by decide_cbv)

/-- The least word, with zeros in front. -/
def leastWord : Numeral := .decimal true [0, 0, 3, 2, 7, 6, 8]

/-- A pattern of seventeen bits, with a gap behind its first and its last one. -/
def seventeenBits : Numeral := .binary ([some 1, none] ++ List.replicate 16 (some 0) ++ [none])

theorem numerals_exact_atBounds :
    (assemble {} "li t0 -0032768").diagnostics = [] ∧
    (∃ p, (assemble {} "li t0 -0032768").program = some p ∧ p.code = [0x8F, 0x00, 0x80, 0x00] ∧
      p.data = []) ∧
    (assemble {} "pushi 0b1_0000000000000000_").program = none := by
  have hleast : "li " ++ Register.t0.name ++ " " ++ leastWord.text = "li t0 -0032768" := by
    decide_cbv
  have hbits : "pushi " ++ seventeenBits.text = "pushi 0b1_0000000000000000_" := by decide_cbv
  obtain ⟨-, -, hli, -⟩ := numerals_exact {} (n := leastWord) (by decide)
  obtain ⟨-, -, -, hpushi⟩ := numerals_exact {} (n := seventeenBits) (by decide)
  have hloaded := (hli .t0 rfl).1 (by decide_cbv)
  have hrejected := hpushi.2 (by decide_cbv)
  rw [hleast] at hloaded
  rw [hbits] at hrejected
  obtain ⟨hnil, p, w, hp, hw, hcode, hdata⟩ := hloaded
  have hword : w = 0x8000 := by
    have hvalue : leastWord.value % 65536 = 32768 := by decide_cbv
    rw [hvalue] at hw
    exact UInt16.toNat_inj.mp (Int.ofNat_inj.mp hw)
  subst hword
  exact ⟨hnil, ⟨p, hp, hcode, hdata⟩, hrejected.1⟩

end Assembly

end Minicomputer
