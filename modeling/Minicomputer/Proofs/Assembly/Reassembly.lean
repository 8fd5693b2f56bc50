import Minicomputer.Proofs.Assembly.ImageSize
import Minicomputer.Proofs.Assembly.Respelling

/-!
# Assembling the text of instructions

The lines of a text made of instructions are read one by one as these instructions, so that the text
is assembled to the code that it was made from. The text of an instruction that is not within the
bounds of the assembler is not assembled to anything.
-/

set_option autoImplicit false

namespace Minicomputer.Assembly

open Token (Piece Spells SpellsLines Lexes spaced broken)

/-! ### Lines of tokens -/

theorem spells_mem {k : Nat} {ts : List Token} {ws : List Piece}
    (h : List.Forall₂ (Spells k) ts ws) (hk : ∀ w ∈ ws, Lexes w) :
    ∀ t ∈ ts, t.line = k ∧ t.kind ≠ .eof := by
  induction h with
  | nil => simp
  | cons ht hts ih =>
    have hw := (hk _ List.mem_cons_self).kind_ne
    have hws := ih fun w hm => hk w (List.mem_cons_of_mem _ hm)
    refine List.forall_mem_cons.mpr ⟨⟨ht.2.2, ?_⟩, hws⟩
    rw [ht.1]
    exact hw

theorem splitBy_of_spells {k : Nat} {tss : List (List Token)} {wss : List (List Piece)}
    (h : SpellsLines k tss wss) (hk : ∀ ws ∈ wss, ∀ w ∈ ws, Lexes w)
    (hne : ∀ ws ∈ wss, ws ≠ []) :
    tss.flatten.splitBy (fun t u => t.line == u.line) = tss ∧
      (∀ t ∈ tss.flatten, t.kind ≠ .eof) ∧ ∀ t ∈ tss.flatten.head?, t.line = k := by
  induction h with
  | nil => simp
  | @cons n ts tss ws wss first rest ih =>
    obtain ⟨hsplit, hkind, hhead⟩ := ih (fun x hx => hk x (List.mem_cons_of_mem _ hx))
      fun x hx => hne x (List.mem_cons_of_mem _ hx)
    have hts := spells_mem first (hk ws List.mem_cons_self)
    have htsne : ts ≠ [] := by
      rintro rfl
      cases first
      exact hne [] List.mem_cons_self rfl
    have hchain : ts.IsChain fun t u => t.line == u.line := by
      refine List.Pairwise.isChain (List.pairwise_of_forall_mem_list fun t ht u hu => ?_)
      rw [(hts t ht).1, (hts u hu).1]
      exact beq_self_eq_true n
    refine ⟨?_, ?_, ?_⟩
    -- The lines below have greater numbers, so that none of their tokens joins this line.
    · rw [List.flatten_cons, List.splitBy_append, List.splitBy_of_isChain htsne hchain, hsplit]
      · rfl
      · intro t ht u hu
        rw [(hts t (List.mem_of_getLast? ht)).1, hhead u hu]
        simp
    · rw [List.flatten_cons]
      intro t ht
      obtain ht | ht := List.mem_append.mp ht
      · exact (hts t ht).2
      · exact hkind t ht
    · obtain ⟨t, us, rfl⟩ := List.exists_cons_of_ne_nil htsne
      intro u hu
      cases hu
      exact (hts _ List.mem_cons_self).1

/-- Tokens are grouped again as the lines stood in the text. -/
theorem lines_of_spells {k : Nat} {tss : List (List Token)} {wss : List (List Piece)}
    {stop : Token} (h : SpellsLines k tss wss) (hk : ∀ ws ∈ wss, ∀ w ∈ ws, Lexes w)
    (hne : ∀ ws ∈ wss, ws ≠ []) (hs : stop.kind = .eof) : lines (tss.flatten ++ [stop]) = tss := by
  obtain ⟨hsplit, hkind, -⟩ := splitBy_of_spells h hk hne
  have hf : (tss.flatten ++ [stop]).filter (·.kind != .eof) = tss.flatten := by
    rw [List.filter_append, List.filter_eq_self.mpr fun t ht => by simpa using hkind t ht]
    simp [hs]
  rw [lines, hf]
  exact hsplit

/-- The lines of a source that is lines of pieces. -/
theorem lines_of_broken {source : String} {wss : List (List Piece)}
    (hs : source.toList = broken wss) (hk : ∀ ws ∈ wss, ∀ w ∈ ws, Lexes w)
    (hne : ∀ ws ∈ wss, ws ≠ []) :
    ∃ tss, SpellsLines 1 tss wss ∧ lines (Token.scan source Token.defaultLeader) = tss := by
  obtain ⟨tss, stop, htss, hstop, hscan⟩ := Token.scanFrom_broken hk {}
  refine ⟨tss, htss, ?_⟩
  rw [← lines_of_spells htss hk hne hstop, ← hscan, ← hs]
  rfl

/-! ### Drafts of plain statements -/

theorem directive?_of_ne {mark : TokenKind} {first : Token} (h : first.kind ≠ mark)
    (operands : List Token) : directive? mark (first :: operands) = none := by
  cases operands with
  | nil => rfl
  | cons t ts => rw [directive?, if_neg fun e => h e.1]

theorem segment?_of_ne {first : Token} (h : first.kind ≠ .dot) (operands : List Token) :
    segment? (first :: operands) = none := by
  rw [segment?, directive?_of_ne h]

theorem addLine_of_stands {images : String → Except FileError (List Byte)} {d : Draft}
    {first : Token} {operands : List Token} {o : Operation} (hseg : d.segment = .text)
    (hheld : d.held = []) (hs : Stands d.debugStrings first operands o)
    (hdebug : ∀ index text, o ≠ .debug index text) :
    Draft.addLine images d (first :: operands) =
      { d with statements := d.statements.push ⟨first, o, []⟩ } := by
  have hk : first.kind = .identifier := hs.1
  have hl : first.kind ≠ .label := by simp [hk]
  have hdot : segment? (first :: operands) = none := segment?_of_ne (by simp [hk]) operands
  have hat : directive? .at (first :: operands) = none := directive?_of_ne (by simp [hk]) operands
  have ho := operation_eq_iff.mpr hs
  cases d
  subst hseg hheld
  -- The count of debug strings stays, since the operation is not one with a debug string.
  simp [Draft.addLine, hdot, hl, hat, Draft.addStatement, Draft.bind, ho]

theorem ofInstruction_ne_debug (i : Instruction) (index : Byte) (text : String) :
    Operation.ofInstruction i ≠ .debug index text := by
  cases i <;> nofun

/-- The draft of lines that spell instructions within the bounds of the assembler. -/
theorem foldl_addLine_of_spells (images : String → Except FileError (List Byte)) {k : Nat}
    {tss : List (List Token)} {is : List Instruction} (he : ∀ i ∈ is, i.Emittable)
    (h : SpellsLines k tss (is.map Instruction.pieces)) (ss : List Statement) :
    ∃ us, us.map (·.operation) = is.map .ofInstruction ∧ (∀ s ∈ us, s.diagnostics = []) ∧
      tss.foldl (Draft.addLine images) { statements := ss.toArray } =
        { statements := (ss ++ us).toArray } := by
  induction is generalizing k tss ss with
  | nil =>
    cases h
    exact ⟨[], rfl, by simp, by simp⟩
  | cons i is ih =>
    rcases h with _ | ⟨hts, htss⟩
    have hi := he i List.mem_cons_self
    rcases hts with _ | ⟨hf, hops⟩
    next first operands =>
    -- No line has a debug string, so that none is before any line.
    have hs : Stands 0 first operands (.ofInstruction i) := by
      refine (stands_pieces_iff (.cons hf hops) ?_).mpr ⟨hi, rfl⟩
      rintro op target source rfl
      exact hi.2.2
    obtain ⟨us, hu, hc, hr⟩ := ih (fun j hj => he j (List.mem_cons_of_mem _ hj)) htss
      (ss ++ [⟨first, .ofInstruction i, []⟩])
    refine ⟨⟨first, .ofInstruction i, []⟩ :: us, by simp [hu], by simpa using hc, ?_⟩
    rw [List.foldl_cons, addLine_of_stands rfl rfl hs (ofInstruction_ne_debug i)]
    simpa using hr

/-! ### Accepted drafts -/

/-- The program of a draft of plain statements that fits in memory. -/
theorem assemble_of_statements {settings : Settings} {source : String} {ss : List Statement}
    {is : List Instruction} (hd : draft settings source = { statements := ss.toArray })
    (ho : ss.map (·.operation) = is.map .ofInstruction) (hc : ∀ s ∈ ss, s.diagnostics = [])
    (hz : (is.flatMap Instruction.encode).length ≤ memorySize) :
    ∃ p, (assemble settings source).program = some p ∧
      p.code = is.flatMap Instruction.encode ∧ p.data = [] := by
  have hop : ∀ s ∈ ss, ∃ i, s.operation = .ofInstruction i := by
    intro s hs
    have hm : s.operation ∈ is.map .ofInstruction := ho ▸ List.mem_map_of_mem hs
    obtain ⟨i, -, hi⟩ := List.mem_map.mp hm
    exact ⟨i, hi.symm⟩
  have hcode (labels : Addresses) :
      ss.flatMap (fun s => s.operation.encode labels) = is.flatMap Instruction.encode := by
    have he : ss.flatMap (fun s => s.operation.encode labels) =
        (ss.map (·.operation)).flatMap (·.encode labels) := (List.flatMap_map ..).symm
    rw [he, ho, List.flatMap_map]
    simp only [encode_of_instruction? (instruction?_ofInstruction labels _)]
  have hsize : total (ss.map (·.size)) = (is.flatMap Instruction.encode).length := by
    have he : ss.map (·.size) = is.map Instruction.size := by
      calc ss.map (·.size) = (ss.map (·.operation)).map Operation.size := by
            rw [List.map_map]
            rfl
        _ = is.map Instruction.size := by simp [ho, size_ofInstruction]
    rw [he]
    exact total_map_eq_length fun i _ => i.encode_length
  have hnil : (assemble settings source).diagnostics = [] := by
    show (draft settings source).diagnostics = []
    rw [hd]
    refine diagnostics_eq_nil_iff.mpr ⟨?_, by simp, rfl, ?_⟩
    · intro s hs
      refine ⟨hc s hs, fun t bounded hl => ?_⟩
      obtain ⟨i, hi⟩ := hop s hs
      rw [hi, label?_ofInstruction] at hl
      cases hl
    · show total (ss.map (·.size)) + 0 ≤ memorySize
      rw [hsize]
      exact hz
  obtain ⟨p, hp⟩ := Option.isSome_iff_exists.mp ((program_isSome_iff settings source).mpr hnil)
  refine ⟨p, hp, ?_, ?_⟩
  · rw [eq_program_of_some hp, hd]
    exact hcode _
  · rw [eq_program_of_some hp, hd]
    rfl

/-! ### The text of instructions -/

/-- Lines of instruction text, one instruction a line. -/
def textOf (is : List Instruction) : String := "\n".intercalate (is.map Instruction.text)

theorem toList_textOf (is : List Instruction) :
    (textOf is).toList = broken (is.map Instruction.pieces) := by
  rw [textOf, String.toList_intercalate, List.map_map, broken, List.map_map]
  show ['\n'].intercalate _ = _
  congr 1
  exact List.map_congr_left fun i _ => i.text_eq_spaced

/-- The lines of instruction text as tokens. -/
theorem lines_textOf (is : List Instruction) :
    ∃ tss, SpellsLines 1 tss (is.map Instruction.pieces) ∧
      lines (Token.scan (textOf is) Token.defaultLeader) = tss := by
  refine lines_of_broken (toList_textOf is) ?_ ?_
  · intro ws hws
    obtain ⟨i, -, rfl⟩ := List.mem_map.mp hws
    exact i.lexes_pieces
  · intro ws hws
    obtain ⟨i, -, rfl⟩ := List.mem_map.mp hws
    exact List.cons_ne_nil _ _

variable (settings : Settings)

theorem assemble_textOf {is : List Instruction} (he : ∀ i ∈ is, i.Emittable)
    (hz : (is.flatMap Instruction.encode).length ≤ memorySize) :
    ∃ p, (assemble { settings with commentLeader := Token.defaultLeader } (textOf is)).program =
        some p ∧ p.code = is.flatMap Instruction.encode ∧ p.data = [] := by
  obtain ⟨tss, htss, hlines⟩ := lines_textOf is
  obtain ⟨us, hu, hc, hfold⟩ := foldl_addLine_of_spells settings.images he htss []
  refine assemble_of_statements ?_ hu hc hz
  rw [draft, Draft.ofTokens, hlines]
  show Draft.close (tss.foldl _ _) = _
  rw [hfold]
  rfl

/-! ### Text that is not assembled -/

theorem lines_cons {t : Token} (h : t.kind ≠ .eof) (ts : List Token) :
    ∃ us rest, lines (t :: ts) = (t :: us) :: rest := by
  have hf : (t :: ts).filter (·.kind != .eof) = t :: ts.filter (·.kind != .eof) := by
    simp [h]
  have hne : t :: ts.filter (·.kind != .eof) ≠ [] := List.cons_ne_nil _ _
  have hs := List.flatten_splitBy (fun t u : Token => t.line == u.line)
    (t :: ts.filter (·.kind != .eof))
  rw [lines, hf]
  rcases hl : (t :: ts.filter (·.kind != .eof)).splitBy fun t u => t.line == u.line with
    _ | ⟨_ | ⟨u, us⟩, rest⟩
  · exact absurd (List.splitBy_eq_nil.mp hl) hne
  · have hm : [] ∈ (t :: ts.filter (·.kind != .eof)).splitBy fun t u => t.line == u.line := by
      rw [hl]
      exact List.mem_cons_self
    exact absurd hm (List.nil_notMem_splitBy _ _)
  · rw [hl, List.flatten_cons, List.cons_append] at hs
    obtain ⟨rfl, -⟩ := List.cons.inj hs
    exact ⟨us, rest, hl⟩

theorem statement_mem_entries {settings : Settings} {source : String} {first : Token}
    {operands : List Token} {rest : List (List Token)}
    (hl : lines (Token.scan source settings.commentLeader) = (first :: operands) :: rest)
    (hdot : first.kind ≠ .dot) (hat : first.kind ≠ .at) (hlabel : first.kind ≠ .label) :
    Entry.statement ⟨first, operands, 0⟩ ∈ entries settings source := by
  rw [entries, hl, outline]
  refine List.mem_append_left _ ?_
  simp [outlineLine, segment?_of_ne hdot, directive?_of_ne hat, hlabel, outlineElement]

theorem decode_arith {w data : Word} {op : ArithOp} {target source : Register}
    (h : Instruction.decode w data = some (.arith op target source)) (hu : op.isUnary = true) :
    source = target := by
  unfold Instruction.decode at h
  split at h
  · split at h <;> cases h
  · split at h
    · simp at h
    · obtain ⟨p, -, hp⟩ := Option.map_eq_some_iff.mp h
      cases hp
      rw [if_pos hu]
  · split at h <;> simp at h
  · obtain ⟨⟨p, immediate⟩, -, hp⟩ := Option.map_eq_some_iff.mp h
    cases immediate <;> cases hp
  · simp at h
  · cases h
  · split at h
    · cases h
    · split at h <;> cases h

theorem emittable_of_assembled {i : Instruction} {p : Program}
    (hu : ∀ op target source, i = .arith op target source → op.isUnary = true → source = target)
    (hp : (assemble { settings with commentLeader := Token.defaultLeader } i.text).program =
      some p) : i.Emittable := by
  obtain ⟨tss, htss, hlines⟩ := lines_textOf [i]
  have ht : textOf [i] = i.text := String.intercalate_singleton
  rw [ht] at hlines
  rcases htss with _ | ⟨hts, ⟨⟩⟩
  rcases hts with _ | ⟨hf, hops⟩
  next first operands =>
  have hk : first.kind = .identifier := hf.1
  have hm : Entry.statement ⟨first, operands, 0⟩ ∈
      entries { settings with commentLeader := Token.defaultLeader } i.text :=
    statement_mem_entries hlines (by simp [hk]) (by simp [hk]) (by simp [hk])
  have hs := (stands_of_accepted (accepted_of_some hp) hm).1
  exact ((stands_pieces_iff (.cons hf hops) hu).mp hs).1

theorem not_assembled_of_mark (s : List Char) :
    (assemble { settings with commentLeader := Token.defaultLeader }
      (String.ofList ('?' :: s))).program = none := by
  cases hp : (assemble { settings with commentLeader := Token.defaultLeader }
      (String.ofList ('?' :: s))).program with
  | none => rfl
  | some p =>
    obtain ⟨t, ts, hk, hscan⟩ : ∃ t ts, t.kind = .questionMark ∧
        Token.scan (String.ofList ('?' :: s)) Token.defaultLeader = t :: ts := by
      rw [Token.scan, String.toList_ofList, Token.scanFrom, if_neg (by decide)]
      exact ⟨_, _, rfl, rfl⟩
    have hne : t.kind ≠ .eof := by simp [hk]
    obtain ⟨us, rest, hl⟩ := lines_cons hne ts
    rw [← hscan] at hl
    have hm : Entry.statement ⟨t, us, 0⟩ ∈
        entries { settings with commentLeader := Token.defaultLeader }
          (String.ofList ('?' :: s)) :=
      statement_mem_entries hl (by simp [hk]) (by simp [hk]) (by simp [hk])
    have hi := (stands_of_accepted (accepted_of_some hp) hm).1.1
    rw [hk] at hi
    cases hi

/-- Only the text of a word that holds an instruction within the bounds of the assembler is
assembled. -/
theorem emittable_of_words {w data : Word} {p : Program}
    (hp : (assemble { settings with commentLeader := Token.defaultLeader }
      (Instruction.textOfWords w data)).program = some p) :
    ∃ i, Instruction.decode w data = some i ∧ i.Emittable ∧
      i.text = Instruction.textOfWords w data := by
  cases hd : Instruction.decode w data with
  | none =>
    have ht : Instruction.textOfWords w data =
        String.ofList ('?' :: ("?? " ++ Text.marked 4 w.toNat).toList) := by
      rw [Instruction.textOfWords, hd]
      apply String.toList_inj.mp
      simp
    rw [ht, not_assembled_of_mark] at hp
    cases hp
  | some i =>
    have ht : Instruction.textOfWords w data = i.text := by rw [Instruction.textOfWords, hd]
    rw [ht] at hp
    refine ⟨i, rfl, emittable_of_assembled settings ?_ hp, ht.symm⟩
    -- The text of a unary operation hides its source, which decoding makes equal to its target.
    rintro op target source rfl hu
    exact decode_arith hd hu

/-- Instruction text within the bounds of the assembler is assembled to the code that it was made
from, any other is rejected. -/
theorem reassembly :
    (∀ is : List Instruction, (∀ i ∈ is, i.Emittable) →
      (is.flatMap Instruction.encode).length ≤ memorySize →
        ∃ p, (assemble { settings with commentLeader := Token.defaultLeader }
            ("\n".intercalate (is.map Instruction.text))).program = some p ∧
          p.code = is.flatMap Instruction.encode ∧ p.data = []) ∧
    (∀ w data : Word, (∀ i, Instruction.decode w data = some i → ¬ i.Emittable) →
      (assemble { settings with commentLeader := Token.defaultLeader }
        (Instruction.textOfWords w data)).program = none) ∧
    ∀ (w data : Word) (p : Program),
      (assemble { settings with commentLeader := Token.defaultLeader }
          (Instruction.textOfWords w data)).program = some p →
        ∃ i, Instruction.decode w data = some i ∧ p.code = i.encode ∧ p.data = [] := by
  refine ⟨fun is he hz => assemble_textOf settings he hz, fun w data hn => ?_,
    fun w data p hp => ?_⟩
  · cases hp : (assemble { settings with commentLeader := Token.defaultLeader }
        (Instruction.textOfWords w data)).program with
    | none => rfl
    | some p =>
      obtain ⟨i, hi, he, -⟩ := emittable_of_words settings hp
      exact absurd he (hn i hi)
  · obtain ⟨i, hi, he, ht⟩ := emittable_of_words settings hp
    have hz : ([i].flatMap Instruction.encode).length ≤ memorySize := by
      rw [List.flatMap_singleton, i.encode_length]
      have hs := i.size_eq_two_or_four
      simp only [memorySize]
      omega
    have hone : ∀ j ∈ [i], j.Emittable := by simpa using he
    obtain ⟨q, hq, hcode, hdata⟩ := assemble_textOf settings hone hz
    have htext : textOf [i] = Instruction.textOfWords w data := by
      rw [← ht]
      exact String.intercalate_singleton
    rw [htext, hp] at hq
    cases hq
    exact ⟨i, hi, by simpa using hcode, hdata⟩

theorem reassembly_of_countdown :
    (∃ p, (assemble {} "li t0 -9\ninc t0 1\nover a0\npush t0\njnz 4").program = some p ∧
      p.code = [0x8F, 0x00, 0xFF, 0xF7, 0x02, 0x01, 0x25, 0x06, 0x20, 0x0D, 0xE0, 0x04] ∧
      p.data = []) ∧
    (assemble {} "debug 7").program = none ∧
    ∃ p i, (assemble {} "pushi 7").program = some p ∧ Instruction.decode 0x2F3D 7 = some i ∧
      p.code = i.encode ∧ p.data = [] := by
  obtain ⟨hlist, hnot, hword⟩ := reassembly {}
  refine ⟨?_, ?_, ?_⟩
  · obtain ⟨p, hp, hcode, hdata⟩ := hlist
      [.access .li .t0 none 0xFFF7, .inc .t0 1, .rearrange .pick .a0, .push .t0 .sp, .jump .jnz 4]
      (by decide) (by decide)
    exact ⟨p, hp, hcode.trans (by decide), hdata⟩
  · exact hnot 0x0807 0 (by decide)
  · have hp : (assemble {} "pushi 7").program.isSome = true := by decide_cbv
    obtain ⟨p, hp⟩ := Option.isSome_iff_exists.mp hp
    obtain ⟨i, hi, hcode, hdata⟩ := hword 0x2F3D 7 p hp
    exact ⟨p, i, hp, hi, hcode, hdata⟩

end Minicomputer.Assembly
