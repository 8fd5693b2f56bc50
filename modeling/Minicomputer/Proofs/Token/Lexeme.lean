import Mathlib
import Minicomputer.Token.Scan

/-!
# Lexemes

What the scanner finds at the front of a source lies in the source. It is a comment where a comment
opens, and a token everywhere else, whose text is the source that it takes if it is a name, a number
or punctuation.
-/

set_option autoImplicit false

namespace Minicomputer

/-- Names, numbers and punctuation: the text of such a token is the source that it takes. -/
def TokenKind.isVerbatim : TokenKind → Bool
  | label | string | char | error | eof => false
  | _ => true

namespace Token

/-- A lexeme is a token within the source, and its text is source where it should be. -/
structure Lexeme.Sound (c : Char) (s : List Char) (l : Lexeme) : Prop where
  token : l.token?.isSome = true
  inside : l.more ≤ s.length
  kind : ∀ kind text, l.token? = some (kind, text) → kind ≠ .eof
  verbatim : ∀ kind text, l.token? = some (kind, text) → kind.isVerbatim = true →
    text.toList = c :: s.take l.more
  label : ∀ text, l.token? = some (.label, text) → text.toList ++ [':'] = c :: s.take l.more

theorem span_le (p : Char → Bool) (s : List Char) : span p s ≤ s.length :=
  (List.takeWhile_prefix p).length_le

theorem sound_verbatim {kind : TokenKind} (hk : kind.isVerbatim = true) (c : Char) {s : List Char}
    {n : Nat} (hn : n ≤ s.length) : (verbatim kind c s n).Sound c s where
  token := rfl
  inside := hn
  kind := by
    rintro _ _ h rfl
    cases h
    cases hk
  verbatim := by
    rintro _ _ h -
    cases h
    exact String.toList_ofList
  label := by
    intro _ h
    cases h
    cases hk

/-- Literals and errors need no text that is source. -/
theorem sound_other {kind : TokenKind} (hk : kind.isVerbatim = false) (he : kind ≠ .eof)
    (hl : kind ≠ .label) (c : Char) {s : List Char} (text : String) {n : Nat} (hn : n ≤ s.length) :
    (⟨some (kind, text), n⟩ : Lexeme).Sound c s where
  token := rfl
  inside := hn
  kind := by
    intro _ _ h
    cases h
    exact he
  verbatim := by
    intro _ _ h hv
    cases h
    rw [hk] at hv
    cases hv
  label := by
    intro _ h
    cases h
    exact absurd rfl hl

theorem sound_number (c : Char) (s : List Char) : (number c s).Sound c s := by
  have digits := span_le Char.isDigit s
  unfold number
  split
  · next r =>
    have hr := span_le isHexDigit r
    exact sound_verbatim rfl _ (by rw [List.length_cons]; omega)
  · next r =>
    have hr := span_le isBinaryDigit r
    exact sound_verbatim rfl _ (by rw [List.length_cons]; omega)
  · dsimp only
    split
    · next r hr =>
      have fraction := span_le Char.isDigit r
      have hl := congrArg List.length hr
      rw [List.length_drop, List.length_cons] at hl
      split
      · exact sound_verbatim rfl c digits
      · exact sound_verbatim rfl c (by omega)
    · exact sound_verbatim rfl c digits

theorem literalChar_le (s : List Char) : (literalChar s).2 ≤ s.length := by
  unfold literalChar
  split <;> simp

theorem sound_charLiteral (s : List Char) : (charLiteral s).Sound '\'' s := by
  unfold charLiteral
  rcases hv : (if s.head? = some '\n' then (none, 0) else literalChar s) with ⟨value, n⟩
  have hn : n ≤ s.length := by
    have h := congrArg Prod.snd hv
    dsimp only at h
    rw [← h]
    split
    · exact Nat.zero_le _
    · exact literalChar_le s
  dsimp only
  split
  · next hq =>
    have hl : n < s.length := by
      by_contra hge
      rw [List.drop_eq_nil_of_le (Nat.le_of_not_lt hge)] at hq
      cases hq
    exact sound_other rfl (by decide) (by decide) _ _ hl
  · exact sound_other rfl (by decide) (by decide) _ _ hn

theorem stringBody_le {s value : List Char} {n : Nat} (h : stringBody s = some (value, n)) :
    n ≤ s.length := by
  fun_induction stringBody s generalizing value n with
  | case1 => cases h
  | case2 => cases h; simp
  | case3 => cases h
  | case4 c s ih =>
    obtain ⟨⟨v, k⟩, hk, he⟩ := Option.map_eq_some_iff.mp h
    cases he
    have := ih hk
    simp only [List.length_cons]
    omega
  | case5 c s _ _ _ ih =>
    obtain ⟨⟨v, k⟩, hk, he⟩ := Option.map_eq_some_iff.mp h
    cases he
    have := ih hk
    simp only [List.length_cons]
    omega

theorem sound_stringLiteral (s : List Char) : (stringLiteral s).Sound '"' s := by
  unfold stringLiteral
  split
  · next h => exact sound_other rfl (by decide) (by decide) _ _ (stringBody_le h)
  · exact sound_other rfl (by decide) (by decide) _ _ (Nat.le_refl _)

theorem sound_word (c : Char) (s : List Char) : (word c s).Sound c s := by
  have hn := span_le continuesWord s
  unfold word
  dsimp only
  split
  · next hq =>
    have hq : s[span continuesWord s]? = some ':' := by rwa [List.head?_drop] at hq
    obtain ⟨hl, -⟩ := List.getElem?_eq_some_iff.mp hq
    refine ⟨rfl, hl, ?_, ?_, ?_⟩
    · intro _ _ h
      cases h
      decide
    · intro _ _ h hv
      cases h
      cases hv
    · intro _ h
      cases h
      rw [String.toList_ofList, List.take_add_one, hq]
      rfl
  · exact sound_verbatim rfl c hn

theorem sound_punctuation (c : Char) (s : List Char) : (punctuation c s).Sound c s := by
  have one {kind : TokenKind} (hk : kind.isVerbatim = true) : (verbatim kind c s 0).Sound c s :=
    sound_verbatim hk c (Nat.zero_le _)
  have withEqual {kind alone : TokenKind} (hk : kind.isVerbatim = true)
      (ha : alone.isVerbatim = true) :
      (if s.head? = some '=' then verbatim kind c s 1 else verbatim alone c s 0).Sound c s := by
    split
    · next hq =>
      cases s with
      | nil => cases hq
      | cons d s => exact sound_verbatim hk c (Nat.le_add_left 1 s.length)
    · exact one ha
  unfold punctuation
  dsimp only
  split
  all_goals first
    | exact one rfl
    | exact withEqual rfl rfl
    | exact sound_other rfl (by decide) (by decide) _ _ (Nat.zero_le _)

/-- A comment opens where the leader stands. An empty leader opens none. -/
def Opens (leader s : List Char) : Prop := leader ≠ [] ∧ opensWith leader s = true

theorem lexeme_of_opens {leader s : List Char} {c : Char} (h : Opens leader (c :: s)) :
    lexeme leader c s = ⟨none, span (· != '\n') s⟩ := by
  obtain ⟨hl, ho⟩ := h
  unfold lexeme
  rw [ho]
  simp [hl]

/-! ### Shapes

Which function reads a lexeme is told by the first characters alone. What they tell is taken apart
here, so that no other proof has to walk the conditions one after the other. -/

/-- What can stand at a place of the source. -/
inductive Shape where
  | comment | number | charLiteral | stringLiteral | word | punctuation

def shape (leader : List Char) (c : Char) (s : List Char) : Shape :=
  if !leader.isEmpty && opensWith leader (c :: s) then .comment
  else if c.isDigit || (c == '-' && s.head?.any Char.isDigit) then .number
  else if c = '\'' then .charLiteral
  else if c = '"' then .stringLiteral
  else if startsWord c then .word
  else .punctuation

/-- What is read where a shape stands. -/
def Shape.read (c : Char) (s : List Char) : Shape → Lexeme
  | comment => ⟨none, span (· != '\n') s⟩
  | number => Token.number c s
  | charLiteral => Token.charLiteral s
  | stringLiteral => Token.stringLiteral s
  | word => Token.word c s
  | punctuation => Token.punctuation c s

theorem lexeme_eq_read (leader : List Char) (c : Char) (s : List Char) :
    lexeme leader c s = (shape leader c s).read c s := by
  unfold lexeme shape
  split_ifs <;> rfl

/-- The shape depends on the leader and on one character more. -/
theorem shape_congr {leader : List Char} {c : Char} {s t : List Char}
    (hopens : opensWith leader (c :: s) = opensWith leader (c :: t))
    (hdigit : s.head?.any Char.isDigit = t.head?.any Char.isDigit) :
    shape leader c s = shape leader c t := by
  rw [shape, shape, hopens, hdigit]

/-- What a shape says about how it begins. -/
def Shape.Begins (leader : List Char) (c : Char) (s : List Char) : Shape → Prop
  | comment => Opens leader (c :: s)
  | charLiteral => c = '\''
  | stringLiteral => c = '"'
  | word => startsWord c = true
  | number | punctuation => True

theorem shape_begins (leader : List Char) (c : Char) (s : List Char) :
    (shape leader c s).Begins leader c s := by
  unfold shape
  split_ifs with hc hn hq hd hw
  · rw [Bool.and_eq_true, Bool.not_eq_true', List.isEmpty_eq_false_iff] at hc
    exact hc
  · trivial
  · exact hq
  · exact hd
  · exact hw
  · trivial

theorem sound_lexeme {leader s : List Char} {c : Char} (h : ¬ Opens leader (c :: s)) :
    (lexeme leader c s).Sound c s := by
  have hbegins := shape_begins leader c s
  rw [lexeme_eq_read]
  generalize shape leader c s = found at hbegins ⊢
  cases found with
  | comment => exact absurd hbegins h
  | number => exact sound_number c s
  | charLiteral =>
    obtain rfl : c = '\'' := hbegins
    exact sound_charLiteral s
  | stringLiteral =>
    obtain rfl : c = '"' := hbegins
    exact sound_stringLiteral s
  | word => exact sound_word c s
  | punctuation => exact sound_punctuation c s

end Token
end Minicomputer
