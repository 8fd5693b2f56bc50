import Minicomputer.Proofs.Token.Lines

/-!
# String literals

Any text can be written as a string literal: with a backslash in front of each quote and each
backslash it is read as it stands, over line ends and marks of comments. A literal is open, and an
error to the end of the source, exactly where no quote behind it has an even number of backslashes in
front.
-/

set_option autoImplicit false

namespace Minicomputer.Token

/-- Text as it is written between quotes. -/
def escaped (s : List Char) : List Char :=
  s.flatMap fun c => if c = '"' ∨ c = '\\' then ['\\', c] else [c]

theorem escaped_cons_mark {c : Char} (h : c = '"' ∨ c = '\\') (s : List Char) :
    escaped (c :: s) = '\\' :: c :: escaped s := by
  rw [escaped, List.flatMap_cons, if_pos h]
  rfl

theorem escaped_cons {c : Char} (hq : c ≠ '"') (hb : c ≠ '\\') (s : List Char) :
    escaped (c :: s) = c :: escaped s := by
  rw [escaped, List.flatMap_cons, if_neg (not_or.mpr ⟨hq, hb⟩)]
  rfl

theorem unescape_mark {c : Char} (h : c = '"' ∨ c = '\\') : unescape c = c := by
  obtain rfl | rfl := h <;> rfl

/-- A literal denotes the text that it was made from. -/
theorem stringBody_escaped (s rest : List Char) :
    stringBody (escaped s ++ '"' :: rest) = some (s, (escaped s).length + 1) := by
  induction s with
  | nil => rfl
  | cons c s ih =>
    by_cases h : c = '"' ∨ c = '\\'
    · rw [escaped_cons_mark h, List.cons_append, List.cons_append, stringBody, ih, Option.map_some,
        unescape_mark h]
      rfl
    · obtain ⟨hq, hb⟩ := not_or.mp h
      rw [escaped_cons hq hb, List.cons_append, stringBody_cons hq hb, ih]
      rfl

theorem lexeme_escaped (s rest : List Char) :
    lexeme ['#'] '"' (escaped s ++ '"' :: rest) =
      ⟨some (.string, String.ofList s), (escaped s).length + 1⟩ := by
  rw [lexeme_of_ne_mark (by decide)]
  simp [stringLiteral, stringBody_escaped]

/-- The literal is one token, behind which the source is read on. -/
theorem scanFrom_escaped (p : Position) (s rest : List Char) :
    scanFrom ['#'] p ('"' :: (escaped s ++ '"' :: rest)) =
      ⟨.string, String.ofList s, p, (p.after ('"' :: (escaped s ++ ['"']))).offset⟩ ::
        scanFrom ['#'] (p.after ('"' :: (escaped s ++ ['"']))) rest := by
  have hcut : escaped s ++ '"' :: rest = escaped s ++ ['"'] ++ rest := by simp
  have hlength : (escaped s ++ ['"']).length = (escaped s).length + 1 := List.length_append
  rw [scanFrom, if_neg (by decide), lexeme_escaped]
  dsimp only
  rw [hcut, List.take_left' hlength, List.drop_left' hlength]

/-! ### Quotes that close -/

/-- How many backslashes some text ends with. -/
def trailingBackslashes (s : List Char) : Nat := (s.reverse.takeWhile (· == '\\')).length

/-- A quote behind some text of a literal closes it if it is not escaped. The backslashes in front of
it escape each other in pairs. -/
def Closes (s : List Char) : Prop := Even (trailingBackslashes s)

variable {c : Char} {s : List Char}

/-- What is read as a whole does not matter to a quote further behind. -/
theorem closes_append {unit : List Char} (h : Closes unit) (s : List Char) :
    Closes (unit ++ s) ↔ Closes s := by
  unfold Closes trailingBackslashes at h ⊢
  rw [List.reverse_append, List.takeWhile_append]
  split
  · next hall =>
    rw [List.length_append, Nat.even_add, iff_true_right h, hall]
  · rfl

theorem closes_single (h : c ≠ '\\') : Closes [c] := by
  have hlast : [c].takeWhile (· == '\\') = [] := List.takeWhile_cons_of_neg (by simpa using h)
  unfold Closes trailingBackslashes
  rw [List.reverse_singleton, hlast]
  exact .zero

theorem closes_escape (c : Char) : Closes ['\\', c] := by
  unfold Closes trailingBackslashes
  by_cases h : c = '\\'
  · subst h
    decide
  · have hlast : [c, '\\'].takeWhile (· == '\\') = [] := List.takeWhile_cons_of_neg (by simpa using h)
    change Even (List.takeWhile _ [c, '\\']).length
    rw [hlast]
    exact .zero

/-- No quote within an escape closes the literal, not even one that is escaped. -/
theorem not_closes_within_escape {before after : List Char}
    (hcut : ['\\', c] = before ++ '"' :: after) : ¬ Closes before := by
  obtain _ | ⟨mark, _ | ⟨c', before⟩⟩ := before
  · cases hcut
  · obtain rfl := (List.cons.inj hcut).1
    unfold Closes
    decide
  · have hbehind := List.append_ne_nil_of_right_ne_nil before (List.cons_ne_nil '"' after)
    exact absurd (List.cons.inj (List.cons.inj hcut).2).2.symm hbehind

theorem not_closes_within_single {before after : List Char} (h : c ≠ '"')
    (hcut : [c] = before ++ '"' :: after) : ¬ Closes before := by
  obtain _ | ⟨c', before⟩ := before
  · exact absurd (List.cons.inj hcut).1 h
  · have hbehind := List.append_ne_nil_of_right_ne_nil before (List.cons_ne_nil '"' after)
    exact absurd (List.cons.inj hcut).2.symm hbehind

/-- Where no quote within a unit closes the literal, it is open exactly if it is behind the unit. -/
theorem open_append_iff {unit rest : List Char} (hunit : Closes unit)
    (hwithin : ∀ before after, unit = before ++ '"' :: after → ¬ Closes before) :
    (∀ before after, unit ++ rest = before ++ '"' :: after → ¬ Closes before) ↔
      ∀ before after, rest = before ++ '"' :: after → ¬ Closes before := by
  constructor
  · intro h before after hcut
    have hwhole : unit ++ rest = unit ++ before ++ '"' :: after := by
      rw [hcut, List.append_assoc]
    exact (closes_append hunit before).not.mp (h _ after hwhole)
  · intro h before after hcut
    obtain ⟨behind, rfl, htail⟩ | ⟨within, hhead, htail⟩ := List.append_eq_append_iff.mp hcut
    · exact (closes_append hunit behind).not.mpr (h behind after htail)
    -- the quote is within the unit, or the first character behind it
    · obtain _ | ⟨quote, within⟩ := within
      · rw [List.append_nil] at hhead
        subst hhead
        exact (h [] after htail.symm).elim .zero
      · obtain rfl := (List.cons.inj htail).1
        exact hwithin before within hhead

/-- A literal is left open exactly where no quote closes it. -/
theorem stringBody_eq_none_iff (s : List Char) :
    stringBody s = none ↔ ∀ before after, s = before ++ '"' :: after → ¬ Closes before := by
  fun_induction stringBody s with
  | case1 => simp
  | case2 rest =>
    refine iff_of_false (Option.some_ne_none _) fun h => h [] rest rfl ?_
    exact .zero
  | case3 =>
    refine iff_of_true rfl fun before after h => ?_
    obtain _ | ⟨_, _ | _⟩ := before <;> cases h
  | case4 c rest ih =>
    rw [Option.map_eq_none_iff, ih]
    exact (open_append_iff (closes_escape c) fun _ _ => not_closes_within_escape).symm
  | case5 c rest hquote hlone hescape ih =>
    have hsingle := closes_single (ne_backslash hlone hescape)
    rw [Option.map_eq_none_iff, ih]
    exact (open_append_iff hsingle fun _ _ => not_closes_within_single hquote).symm

/-- A text as a string literal. -/
def literal (s : String) : String := "\"" ++ String.ofList (escaped s.toList) ++ "\""

/-- A text is read back from its literal, whatever characters it has. A source that starts with a
quote is an error as a whole exactly where no quote behind it closes the literal. -/
theorem scan_literals :
    (∀ s : String, scan (literal s) =
      [⟨.string, s, {}, (literal s).length⟩, endMark (literal s).toList]) ∧
    ∀ body : String,
      (∀ before after, body.toList = before ++ '"' :: after → ¬ Closes before) ↔
        scan ("\"" ++ body) =
          [⟨.error, "<Unterminated string: \"" ++ body ++ ">", {}, ("\"" ++ body).length⟩,
            endMark ("\"" ++ body).toList] := by
  refine ⟨fun s => ?_, fun body => ?_⟩
  · have hs : (literal s).toList = '"' :: (escaped s.toList ++ ['"']) := by simp [literal]
    have hl := lexeme_escaped s.toList []
    have hlength : (escaped s.toList).length + 1 = (escaped s.toList ++ ['"']).length := by simp
    rw [String.ofList_toList, hlength] at hl
    exact scan_of_lexeme hs (by decide) hl
  · have hs : ("\"" ++ body).toList = '"' :: body.toList := by simp
    have hliteral : lexeme ['#'] '"' body.toList = stringLiteral body.toList := by
      rw [lexeme_of_ne_mark (by decide)]
      rfl
    rw [← stringBody_eq_none_iff]
    constructor
    · intro hnone
      refine scan_of_lexeme hs (by decide) ?_
      rw [hliteral, stringLiteral, hnone, String.ofList_toList]
    · intro herror
      cases hbody : stringBody body.toList with
      | none => rfl
      | some found =>
        have hd : defaultLeader.toList = ['#'] := by decide_cbv
        rw [scan, hd, hs, scanFrom, if_neg (by decide), hliteral, stringLiteral, hbody] at herror
        cases congrArg (fun ts => ts.head?.map Token.kind) herror

/-- A text over two lines, and a literal whose only quote and whose end are escaped. -/
theorem scan_literals_overLines :
    scan "\"a\\\"#\n\\\\\"" =
        [⟨.string, "a\"#\n\\", {}, 9⟩, endMark "\"a\\\"#\n\\\\\"".toList] ∧
      scan "\"a\\\"\n\\" =
        [⟨.error, "<Unterminated string: \"a\\\"\n\\>", {}, 6⟩,
          endMark "\"a\\\"\n\\".toList] := by
  obtain ⟨hread, hopen⟩ := scan_literals
  have hliteral : literal "a\"#\n\\" = "\"a\\\"#\n\\\\\"" := by decide_cbv
  have htext := hread "a\"#\n\\"
  rw [hliteral] at htext
  have hnone : stringBody "a\\\"\n\\".toList = none := by decide_cbv
  exact ⟨htext, (hopen "a\\\"\n\\").mp ((stringBody_eq_none_iff _).mp hnone)⟩

end Minicomputer.Token
