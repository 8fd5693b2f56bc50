import Minicomputer.Proofs.Assembly.Displacement
import Minicomputer.Proofs.Assembly.Recognition
import Minicomputer.Proofs.Token.Place

/-!
# Shorthands

A word that stands for a longer text can be replaced by that text anywhere in a source. What stands
behind it moves along the line and nothing else changes: the complaints, the code and all that is
known of its bytes are those of the source before.
-/

set_option autoImplicit false

namespace Minicomputer.Assembly

open Token (Moved WordAt replaceWord spacedWords Wordless BeginsApart isName)

/-! ### The lines of a source in which a word is replaced -/

/-- Tokens on one line. -/
def OnLine (n : Nat) (l : List Token) : Prop := l ≠ [] ∧ ∀ t ∈ l, t.line = n

section

variable {α β : Type} {R : α → β → Prop} {xs ys : List α} {zs : List β}

theorem isChain_of_forall₂ {S : α → α → Prop} {T : β → β → Prop} {xs : List α} {ys : List β}
    (h : List.Forall₂ R xs ys) (hst : ∀ a b c d, R a c → R b d → S a b → T c d)
    (hs : xs.IsChain S) : ys.IsChain T := by
  induction h with
  | nil => exact .nil
  | @cons a c xs ys hr h ih =>
    cases h with
    | nil => exact .singleton c
    | cons hr' h =>
      obtain ⟨hab, hs⟩ := List.isChain_cons_cons.mp hs
      exact .cons_cons (hst _ _ _ _ hr hr' hab) (ih hs)

theorem forall_mem_of_forall₂ {P : α → Prop} (h : List.Forall₂ R xs zs)
    (hp : ∀ a c, R a c → P a) : ∀ a ∈ xs, P a := by
  induction h with
  | nil => exact List.forall_mem_nil _
  | cons hr _ ih => exact List.forall_mem_cons.mpr ⟨hp _ _ hr, ih⟩

theorem exists_append_of_forall₂ (h : List.Forall₂ R (xs ++ ys) zs) :
    ∃ us vs, zs = us ++ vs ∧ List.Forall₂ R xs us ∧ List.Forall₂ R ys vs := by
  induction xs generalizing zs with
  | nil => exact ⟨[], zs, rfl, .nil, h⟩
  | cons x xs ih =>
    obtain _ | ⟨hr, h⟩ := h
    obtain ⟨us, vs, rfl, hx, hy⟩ := ih h
    exact ⟨_ :: us, vs, rfl, .cons hr hx, hy⟩

theorem exists_flatten_of_forall₂ {ls : List (List α)} (h : List.Forall₂ R ls.flatten zs) :
    ∃ ms, zs = ms.flatten ∧ List.Forall₂ (List.Forall₂ R) ls ms := by
  induction ls generalizing zs with
  | nil =>
    cases h
    exact ⟨[], rfl, .nil⟩
  | cons l ls ih =>
    obtain ⟨us, vs, rfl, hl, h⟩ := exists_append_of_forall₂ h
    obtain ⟨ms, rfl, hm⟩ := ih h
    exact ⟨us :: ms, rfl, .cons hl hm⟩

end

/-- The tokens of a line are on it. -/
theorem onLine_of_mem_lines {ts line : List Token} (h : line ∈ lines ts) :
    ∃ n, OnLine n line := by
  obtain ⟨t, l, rfl⟩ := List.exists_cons_of_ne_nil (List.ne_nil_of_mem_splitBy h)
  have hchain := List.isChain_of_mem_splitBy h
  refine ⟨t.line, List.cons_ne_nil _ _, List.forall_mem_cons.mpr ⟨rfl, fun u hu => ?_⟩⟩
  have htrans : Trans (fun t u : Token => (t.line == u.line) = true)
      (fun t u : Token => (t.line == u.line) = true)
      (fun t u : Token => (t.line == u.line) = true) :=
    ⟨fun h h' => by rw [beq_iff_eq] at *; exact h.trans h'⟩
  exact (beq_iff_eq.mp (hchain.rel_cons hu)).symm

/-- Lines with the same numbers are told apart alike. -/
theorem splitBy_flatten_of_onLine {ls ms : List (List Token)}
    (hls : ls.flatten.splitBy (fun t u => t.line == u.line) = ls)
    (h : List.Forall₂ (fun l m => ∃ n, OnLine n l ∧ OnLine n m) ls ms) :
    ms.flatten.splitBy (fun t u => t.line == u.line) = ms := by
  have hms : ∀ m ∈ ms, ∃ n, OnLine n m :=
    forall_mem_of_forall₂ h.flip fun _ _ ⟨n, _, hm⟩ => ⟨n, hm⟩
  obtain ⟨-, -, -, hbreak⟩ := List.splitBy_eq_iff.mp hls
  refine List.splitBy_flatten (fun hnil => ?_) (fun m hm => ?_) (isChain_of_forall₂ h ?_ hbreak)
  · obtain ⟨_, hne, -⟩ := hms [] hnil
    exact hne rfl
  · obtain ⟨n, -, hn⟩ := hms m hm
    refine List.Pairwise.isChain (List.pairwise_of_forall_mem_list fun t ht u hu => ?_)
    rw [hn t ht, hn u hu]
    exact beq_self_eq_true n
  · rintro a b c d ⟨n, ⟨-, ha⟩, hc, hcn⟩ ⟨k, ⟨-, hb⟩, hd, hdk⟩ ⟨hane, hbne, hab⟩
    refine ⟨hc, hd, ?_⟩
    rw [ha _ (List.getLast_mem hane), hb _ (List.head_mem hbne)] at hab
    rw [hcn _ (List.getLast_mem hc), hdk _ (List.head_mem hd)]
    exact hab

section

variable {source leader : String} {before after : List (List Token)} {labels operands : List Token}
  {t : Token}

theorem line_of_moved {away home n : Nat} {l m : List Token}
    (h : List.Forall₂ (Moved away home) l m) (hl : ∀ t ∈ l, t.line = n) : ∀ u ∈ m, u.line = n := by
  have hand := (List.forall₂_and_left _ _).mpr ⟨hl, h⟩
  exact forall_mem_of_forall₂ hand.flip fun u t ⟨ht, hmoved⟩ => hmoved.line ▸ ht

theorem onLine_of_moved {away home n : Nat} {l m : List Token}
    (h : List.Forall₂ (Moved away home) l m) (hl : OnLine n l) : OnLine n m := by
  refine ⟨?_, line_of_moved h hl.2⟩
  rintro rfl
  cases h
  exact hl.1 rfl

/-- No token is scanned twice. -/
theorem nodup_scan (source leader : String) : (Token.scan source leader).Nodup := by
  refine (Token.path_scan source leader).pairwise_before.imp fun {t u} h => ?_
  rintro rfl
  unfold Token.Before at h
  omega

/-- The tokens of a source but its end, where words stand for a word. -/
theorem filter_scan_replaceWord (hl : Wordless leader.toList) {front rest : List Token}
    (hold : (Token.scan source leader).filter (·.kind != .eof) = front ++ t :: rest)
    (hk : t.kind = .identifier) {ws : List String} (hws : ∀ w ∈ ws, isName w.toList = true)
    (hapart : BeginsApart (spacedWords ws)) :
    ∃ us rest' away home,
      (Token.scan (replaceWord source t ws) leader).filter (·.kind != .eof) =
        front ++ (us ++ rest') ∧
      List.Forall₂ (WordAt t.line) us ws ∧ List.Forall₂ (Moved away home) rest rest' := by
  have hmem : t ∈ (Token.scan source leader).filter (·.kind != .eof) := by
    rw [hold]
    exact List.mem_append_right _ List.mem_cons_self
  obtain ⟨front', after, us, moved, away, home, hscan, hnew, hus, hmoved⟩ :=
    Token.scan_replaceWord hl (List.mem_of_mem_filter hmem) hk hws hapart
  have hnodup := (nodup_scan source leader).filter (·.kind != .eof)
  rw [hold, List.nodup_middle, List.nodup_cons, List.mem_append, not_or] at hnodup
  rw [hscan, List.filter_append, List.filter_cons_of_pos (by simp [hk]), eq_comm,
    List.append_cons_inj_of_notMem hnodup.1.1 hnodup.1.2] at hold
  obtain ⟨rfl, -, rfl⟩ := hold
  have hkinds : us.filter (·.kind != .eof) = us := by
    refine List.filter_eq_self.mpr (forall_mem_of_forall₂ hus fun u w hu => ?_)
    simp [hu.1]
  refine ⟨us, moved.filter (·.kind != .eof), away, home, ?_, hus, ?_⟩
  · rw [hnew, List.filter_append, List.filter_append, hkinds, List.append_assoc]
  · exact List.rel_filter (fun t u hm => by dsimp only; rw [hm.kind]) hmoved

/-- Tokens that stand for a token on its line are in the same line of the source, and those that
move along their lines are too. -/
theorem splitBy_replaced {away home : Nat} {us operands' : List Token} {after' : List (List Token)}
    (hls : ∀ l ∈ before ++ (labels ++ t :: operands) :: after, ∃ n, OnLine n l)
    (hsplit : (before ++ (labels ++ t :: operands) :: after).flatten.splitBy
      (fun t u => t.line == u.line) = before ++ (labels ++ t :: operands) :: after)
    (hus : OnLine t.line us) (ho : List.Forall₂ (Moved away home) operands operands')
    (ha : List.Forall₂ (List.Forall₂ (Moved away home)) after after') :
    (before ++ (labels ++ (us ++ operands')) :: after').flatten.splitBy
      (fun t u => t.line == u.line) = before ++ (labels ++ (us ++ operands')) :: after' := by
  have hline : OnLine t.line (labels ++ t :: operands) := by
    obtain ⟨n, hne, hn⟩ := hls _ (List.mem_append_right _ List.mem_cons_self)
    exact hn t (by simp) ▸ ⟨hne, hn⟩
  have hafter : ∀ l ∈ after, ∃ n, OnLine n l := fun l hm => hls l (by simp [hm])
  refine splitBy_flatten_of_onLine hsplit (List.rel_append ?_ (.cons ?_ ?_))
  · exact List.forall₂_same.mpr fun l hm =>
      (hls l (List.mem_append_left _ hm)).imp fun n hn => ⟨hn, hn⟩
  · refine ⟨t.line, hline, by simp [hus.1], fun u hu => ?_⟩
    obtain hu | hu := List.mem_append.mp hu
    · exact hline.2 u (List.mem_append_left _ hu)
    obtain hu | hu := List.mem_append.mp hu
    · exact hus.2 u hu
    · exact line_of_moved ho (fun u hu => hline.2 u (by simp [hu])) u hu
  · exact ((List.forall₂_and_left _ _).mpr ⟨hafter, ha⟩).imp fun l m ⟨⟨n, hn⟩, hm⟩ =>
      ⟨n, hn, onLine_of_moved hm hn⟩

/-- Where words stand for a word, they stand for it on its line, and the tokens behind it move. -/
theorem lines_replaceWord (hl : Wordless leader.toList)
    (hlines : lines (Token.scan source leader) = before ++ (labels ++ t :: operands) :: after)
    (hk : t.kind = .identifier) {ws : List String} (hws : ∀ w ∈ ws, isName w.toList = true)
    (hapart : BeginsApart (spacedWords ws)) :
    ∃ us operands' after' away home,
      lines (Token.scan (replaceWord source t ws) leader) =
        before ++ (labels ++ (us ++ operands')) :: after' ∧
      List.Forall₂ (WordAt t.line) us ws ∧
      List.Forall₂ (Moved away home) operands operands' ∧
      List.Forall₂ (List.Forall₂ (Moved away home)) after after' := by
  have hflatten := congrArg List.flatten hlines
  rw [lines, List.flatten_splitBy] at hflatten
  have hold : (Token.scan source leader).filter (·.kind != .eof) =
      (before.flatten ++ labels) ++ t :: (operands ++ after.flatten) := by
    rw [hflatten]
    simp
  obtain ⟨us, rest', away, home, hnew, hus, hmoved⟩ :=
    filter_scan_replaceWord hl hold hk hws hapart
  obtain ⟨operands', _, rfl, ho, h⟩ := exists_append_of_forall₂ hmoved
  obtain ⟨after', rfl, ha⟩ := exists_flatten_of_forall₂ h
  have hne : us ≠ [] := by
    rintro rfl
    cases hus
    exact Token.ne_nil_of_beginsApart hapart rfl
  have hsplit : (before ++ (labels ++ t :: operands) :: after).flatten.splitBy
      (fun t u => t.line == u.line) = before ++ (labels ++ t :: operands) :: after := by
    rw [← hflatten]
    exact hlines
  have hparts : before.flatten ++ labels ++ (us ++ (operands' ++ after'.flatten)) =
      (before ++ (labels ++ (us ++ operands')) :: after').flatten := by simp
  refine ⟨us, operands', after', away, home, ?_, hus, ho, ha⟩
  rw [lines, hnew, hparts]
  exact splitBy_replaced (fun l hm => onLine_of_mem_lines (hlines ▸ hm)) hsplit
    ⟨hne, forall_mem_of_forall₂ hus fun _ _ h => h.2.2⟩ ho ha

end

/-! ### Shorthands -/

/-- A word, in lower case, and what it is short for. -/
inductive Shorthand : String → List String → Prop where
  | immediate (op : ArithOp) : Shorthand (op.name ++ "i") ["imm", op.name]
  | onStack (op : ArithOp) : Shorthand ("s" ++ op.name) ["sop", op.name]
  | la : Shorthand "la" ["li"]
  | ldi : Shorthand "ldi" ["li"]
  | mov : Shorthand "mov" ["mv"]
  | noop : Shorthand "noop" ["nop"]
  | ret : Shorthand "ret" ["jr", "ra"]

namespace Shorthand

variable {short : String} {long : List String}

theorem isName (h : Shorthand short long) : ∀ w ∈ long, Token.isName w.toList = true := by
  cases h with
  | immediate op | onStack op => cases op <;> decide
  | la | ldi | mov | noop | ret => decide

theorem beginsApart (h : Shorthand short long) : BeginsApart (spacedWords long) := by
  cases h with
  | immediate op | onStack op => cases op <;> exact ⟨_, _, rfl, by decide, by decide, by decide⟩
  | la | ldi | mov | noop | ret => exact ⟨_, _, rfl, by decide, by decide, by decide⟩

/-- The first word of the long form says by itself what the short form says, but for the first
operand where the short form says that too. -/
theorem ofWord? (h : Shorthand short long) {word : String} (hw : word.toLower = short) :
    ∃ m implied name, long = name :: implied.toList ∧
      Mnemonic.ofWord? word = some (m, implied) ∧ Mnemonic.ofWord? name = some (m, none) := by
  have hnamed {name : String} {m : Mnemonic} (hm : (name, m) ∈ Mnemonic.words) :
      Mnemonic.ofWord? name = some (m, none) := by
    refine Mnemonic.ofWord?_of_means (.named ?_)
    rwa [Mnemonic.toLower_of_words _ hm]
  cases h with
  | immediate op =>
    exact ⟨.imm, some op.name, "imm", rfl, Mnemonic.ofWord?_of_means (.immediate op hw),
      hnamed (by decide)⟩
  | onStack op =>
    exact ⟨.sop, some op.name, "sop", rfl, Mnemonic.ofWord?_of_means (.onStack op hw),
      hnamed (by decide)⟩
  | ret =>
    exact ⟨.jr, some "ra", "jr", rfl, Mnemonic.ofWord?_of_means (.ret hw), hnamed (by decide)⟩
  | la | ldi =>
    have halias : (word.toLower, "li") ∈ Mnemonic.aliases := by rw [hw]; decide
    exact ⟨.access .li false, none, "li", rfl,
      Mnemonic.ofWord?_of_means (.aliased halias (by decide)), hnamed (by decide)⟩
  | mov =>
    have halias : (word.toLower, "mv") ∈ Mnemonic.aliases := by rw [hw]; decide
    exact ⟨.mv, none, "mv", rfl, Mnemonic.ofWord?_of_means (.aliased halias (by decide)),
      hnamed (by decide)⟩
  | noop =>
    have halias : (word.toLower, "nop") ∈ Mnemonic.aliases := by rw [hw]; decide
    exact ⟨.nop, none, "nop", rfl, Mnemonic.ofWord?_of_means (.aliased halias (by decide)),
      hnamed (by decide)⟩

/-- The long form is read as the short one is, before any operands. -/
theorem operation_alike {t : Token} (h : Shorthand t.text.toLower long) (hk : t.kind = .identifier)
    {us operands operands' : List Token} (hus : List.Forall₂ (WordAt t.line) us long)
    (ho : List.Forall₂ Token.Alike operands operands') :
    ∃ u us', us = u :: us' ∧ u.kind = .identifier ∧ t.line = u.line ∧ ∀ n,
      ReadAlike (Draft.operation n t operands) (Draft.operation n u (us' ++ operands')) := by
  obtain ⟨m, implied, name, rfl, hshort, hlong⟩ := h.ofWord? rfl
  obtain _ | @⟨u, _, us', _, ⟨hu, rfl, hline⟩, hus'⟩ := hus
  refine ⟨u, us', rfl, hu, hline.symm, fun n => ?_⟩
  have himplied : List.Forall₂ Token.Alike (implied.map (t.inPlace .identifier)).toList us' := by
    cases implied with
    | none =>
      cases hus'
      exact .nil
    | some text =>
      obtain _ | ⟨⟨hv, rfl, hvline⟩, ⟨⟩⟩ := hus'
      exact .cons ⟨hv.symm, rfl, hvline.symm⟩ .nil
  simp only [Draft.operation, hk, hu, hshort, hlong]
  exact Reading.all_alike (Reading.steady_operation n m).agree hline.symm
    (List.rel_append himplied ho)

end Shorthand

/-- The segment that a line is in, behind other lines. -/
def segmentAfter (ls : List (List Token)) : Segment := (ls.filterMap segment?).getLast?.getD .text

theorem segment_addLine (images : String → Except FileError (List Byte)) (d : Draft)
    (line : List Token) : (d.addLine images line).segment = (segment? line).getD d.segment := by
  unfold Draft.addLine
  cases segment? line with
  | some segment => rfl
  | none =>
    dsimp only
    split
    · rfl
    · split
      · rfl
      · split <;> exact rfl

theorem segment_foldl (images : String → Except FileError (List Byte)) (ls : List (List Token)) :
    (ls.foldl (Draft.addLine images) {}).segment = segmentAfter ls := by
  induction ls using List.reverseRecOn with
  | nil => rfl
  | append_singleton ls line ih =>
    rw [List.foldl_concat, segment_addLine, ih, segmentAfter, segmentAfter, List.filterMap_append]
    cases h : segment? line with
    | none => simp [h]
    | some segment => simp [h]

section

variable {settings : Settings} {source : String} {before after : List (List Token)}
  {labels operands : List Token} {t : Token} {long : List String}

theorem draft_replaceWord (hl : Wordless settings.commentLeader.toList)
    (hlines : lines (Token.scan source settings.commentLeader) =
      before ++ (labels ++ t :: operands) :: after)
    (hseg : segmentAfter before = .text) (hlabels : ∀ u ∈ labels, u.kind = .label)
    (hk : t.kind = .identifier) (hs : Shorthand t.text.toLower long) :
    (draft settings source).Alike (draft settings (replaceWord source t long)) := by
  obtain ⟨us, operands', after', away, home, hnew, hus, ho, hafter⟩ :=
    lines_replaceWord hl hlines hk hs.isName hs.beginsApart
  obtain ⟨u, us', rfl, hu, hline, hop⟩ := hs.operation_alike hk hus (alike_of_moved ho)
  rw [draft, draft, Draft.ofTokens, Draft.ofTokens, hlines, hnew]
  refine close_alike ?_
  simp only [List.foldl_append, List.foldl_cons]
  refine foldl_addLine_alike settings.images ?_ hafter
  -- The lines in front are the same, so that both drafts come to this line as one.
  have hd := (segment_foldl settings.images before).trans hseg
  generalize before.foldl (Draft.addLine settings.images) {} = d at hd
  rw [List.cons_append, addLine_of_identifier settings.images hd hlabels hk,
    addLine_of_identifier settings.images hd hlabels hu]
  exact addStatement_alike (.refl _) (List.forall₂_same.mpr fun t _ => .refl t) hline (hop _)

/-- Wherever a shorthand begins a line of the text segment, behind any labels and with any operands
behind it, what it is short for can be written instead. There are as many complaints, on the same
lines; the labels have the same addresses, and the program differs in the text of its source
alone. -/
theorem shorthand_is_sugar (hl : Wordless settings.commentLeader.toList)
    (hlines : lines (Token.scan source settings.commentLeader) =
      before ++ (labels ++ t :: operands) :: after)
    (hseg : segmentAfter before = .text) (hlabels : ∀ u ∈ labels, u.kind = .label)
    (hk : t.kind = .identifier) (hs : Shorthand t.text.toLower long) :
    let outcome := assemble settings source
    let written := assemble settings (replaceWord source t long)
    written.diagnostics.map (·.token.line) = outcome.diagnostics.map (·.token.line) ∧
      written.labels = outcome.labels ∧
      written.program = outcome.program.map (·.withSource (replaceWord source t long)) := by
  intro outcome written
  obtain ⟨hdiagnostics, hrest⟩ :=
    assemble_alike settings (draft_replaceWord hl hlines hseg hlabels hk hs)
  exact ⟨hdiagnostics.symm, hrest⟩

end

/-- Two labels in front, one of them right in front of the word, and capital letters. -/
theorem shorthand_is_sugar_of_sadd :
    let source := "start: j over\nover: two:SADD t0 # +\nret"
    let written := "start: j over\nover: two:sop add t0 # +\nret"
    (assemble {} source).program.isSome = true ∧
      (assemble {} written).diagnostics.map (·.token.line) =
        (assemble {} source).diagnostics.map (·.token.line) ∧
      (assemble {} written).labels = (assemble {} source).labels ∧
      (assemble {} written).program =
        (assemble {} source).program.map (·.withSource written) := by
  intro source written
  have hlines : lines (Token.scan source) =
      [[⟨.label, "start", ⟨0, 1, 0⟩, 6⟩, ⟨.identifier, "j", ⟨7, 1, 7⟩, 8⟩,
        ⟨.identifier, "over", ⟨9, 1, 9⟩, 13⟩]] ++
      ([⟨.label, "over", ⟨14, 2, 0⟩, 19⟩, ⟨.label, "two", ⟨20, 2, 6⟩, 24⟩] ++
        ⟨.identifier, "SADD", ⟨24, 2, 10⟩, 28⟩ :: [⟨.identifier, "t0", ⟨29, 2, 15⟩, 31⟩]) ::
      [[⟨.identifier, "ret", ⟨36, 3, 0⟩, 39⟩]] := by decide +kernel
  have hsadd : Shorthand "SADD".toLower ["sop", "add"] := by
    have hlower : "SADD".toLower = "s" ++ ArithOp.add.name := by decide_cbv
    exact hlower ▸ .onStack .add
  have hwritten : replaceWord source ⟨.identifier, "SADD", ⟨24, 2, 10⟩, 28⟩ ["sop", "add"] =
      written := by decide +kernel
  have hleader : Wordless ({} : Settings).commentLeader.toList := Token.wordless_defaultLeader
  have hsugar := shorthand_is_sugar hleader hlines (by decide +kernel) (by decide) rfl hsadd
  rw [hwritten] at hsugar
  exact ⟨by decide +kernel, hsugar⟩

end Minicomputer.Assembly
