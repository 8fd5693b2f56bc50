import Minicomputer.Proofs.Token.Place
import Minicomputer.Proofs.Token.Words

/-!
# Sources line by line

A scanner looks ahead, and literals go on over the ends of lines. But what it finds at the end of a
source without an error is found there too when a blank follows: so a source can be cut at the end
of a line up to which there is no error, and the two parts scanned apart.
-/

set_option autoImplicit false

namespace Minicomputer

/-! ### Places further down -/

namespace Position

/-- The place as many characters and lines further down, in the same column. -/
def shift (offset line : Nat) (p : Position) : Position :=
  ⟨p.offset + offset, p.line + line, p.column⟩

theorem next_shift (offset line : Nat) (p : Position) (c : Char) :
    (p.shift offset line).next c = (p.next c).shift offset line := by
  unfold next shift
  split <;> simp only [Nat.add_right_comm]

theorem after_shift (offset line : Nat) (p : Position) (s : List Char) :
    (p.shift offset line).after s = (p.after s).shift offset line := by
  induction s generalizing p with
  | nil => rfl
  | cons c s ih =>
    show ((p.shift offset line).next c).after s = _
    rw [next_shift]
    exact ih (p.next c)

end Position

namespace Token

def shift (offset line : Nat) (t : Token) : Token :=
  { t with start := t.start.shift offset line, stop := t.stop + offset }

/-- What a token is and where it stands on its line. -/
def appearance (t : Token) : TokenKind × String × Nat × Nat :=
  (t.kind, t.text, t.line, t.start.column)

/-- The tokens of a source do not depend on what is above it. -/
theorem scanFrom_shift (leader : List Char) (offset line : Nat) (p : Position) (s : List Char) :
    scanFrom leader (p.shift offset line) s = (scanFrom leader p s).map (shift offset line) := by
  fun_induction scanFrom leader p s with
  | case1 p => exact scanFrom_nil leader _
  | case2 p c s hb ih => rw [scanFrom_blank hb, Position.next_shift, ih]
  | case3 p c s hb front q ht ih =>
    have hf : (lexeme leader c s).token? = none := ht
    rw [scanFrom, if_neg hb]
    simp only [hf, Position.after_shift]
    exact ih
  | case4 p c s hb front q kind text ht ih =>
    have hf : (lexeme leader c s).token? = some (kind, text) := ht
    rw [scanFrom, if_neg hb]
    simp only [hf, Position.after_shift]
    rw [List.map_cons, ← ih]
    rfl

theorem scanFrom_ne_nil (leader : List Char) (p : Position) (s : List Char) :
    scanFrom leader p s ≠ [] := by
  fun_induction scanFrom leader p s with
  | case1 => simp
  | case2 _ _ _ _ ih => exact ih
  | case3 _ _ _ _ _ _ _ ih => exact ih
  | case4 => simp

/-! ### Lexemes in front of a blank -/

section

variable {s rest x y : List Char} {c : Char}

theorem span_append_of_head {p : Char → Bool} (s : List Char)
    (hr : ∀ c ∈ rest.head?, p c = false) : span p (s ++ rest) = span p s := by
  rw [span, span, List.takeWhile_append, takeWhile_of_head hr]
  split
  · next hl => rw [List.append_nil, ← hl]
  · rfl

/-! What a lexeme takes of a source in front of a text only depends on the first character of the
text, as long as it takes nothing of the text itself. -/

/-- A span that ends in front of a text ends there in front of another one too. -/
theorem span_append_of_le {p : Char → Bool} {s : List Char} (h : span p (s ++ x) ≤ s.length)
    (hxy : (∃ c ∈ x.head?, p c = true) ∨ ∀ c ∈ y.head?, p c = false) :
    span p (s ++ y) = span p (s ++ x) := by
  by_cases hs : ∀ c ∈ s, p c = true
  · -- All of the text in front is spanned, so that what follows stops the span.
    have hx : ∀ c ∈ x.head?, p c = false := by
      intro c hc
      obtain ⟨t, rfl⟩ := List.head?_eq_some_iff.mp hc
      by_contra hp
      rw [span, List.takeWhile_append_of_pos hs, List.takeWhile_cons, if_pos (by simpa using hp),
        List.length_append, List.length_cons] at h
      omega
    have hy : ∀ c ∈ y.head?, p c = false := by
      refine hxy.resolve_left ?_
      rintro ⟨c, hc, hp⟩
      rw [hx c hc] at hp
      cases hp
    rw [span_append hs hx, span_append hs hy]
  · have hstop (z : List Char) : span p (s ++ z) = span p s := by
      rw [span, List.takeWhile_append, if_neg, span]
      intro hl
      refine hs fun c hc => ?_
      have htake : s.takeWhile p = s := (List.takeWhile_prefix p).eq_of_length hl
      exact List.mem_takeWhile_imp (htake ▸ hc)
    rw [hstop, hstop]

theorem head?_append_congr {d : Char} (hx : x.head? ≠ some d) (hy : y.head? ≠ some d)
    (s : List Char) : (s ++ y).head? = some d ↔ (s ++ x).head? = some d := by
  cases s with
  | nil => exact iff_of_false hy hx
  | cons c s => exact Iff.rfl

theorem verbatim_congr (kind : TokenKind) (c : Char) {n : Nat} (hn : n ≤ s.length) :
    verbatim kind c (s ++ y) n = verbatim kind c (s ++ x) n := by
  rw [verbatim, verbatim, List.take_append_of_le_length hn, List.take_append_of_le_length hn]

/-- A text that goes on with no digits, and with no fraction behind them. -/
def EndsDigits (x : List Char) : Prop := ∀ d ∈ x.head?, d.isDigit = false ∧ d ≠ '.'

theorem endsDigits_nil : EndsDigits [] := by
  intro d hd
  cases hd

/-- A text that goes on with no number of any notation. -/
def EndsNumber (x : List Char) : Prop :=
  ∀ d ∈ x.head?, isHexDigit d = false ∧ isBinaryDigit d = false ∧ d ≠ 'x' ∧ d ≠ '.'

theorem EndsNumber.endsDigits (h : EndsNumber x) : EndsDigits x := by
  intro d hd
  obtain ⟨hhex, -, -, hdot⟩ := h d hd
  rw [isHexDigit, Bool.or_eq_false_iff, Bool.or_eq_false_iff] at hhex
  exact ⟨hhex.1.1, hdot⟩

/-- A number in digits, with a fraction or not. -/
theorem number_eq (hhex : c = '0' → s.head? ≠ some 'x') (hbinary : c = '0' → s.head? ≠ some 'b') :
    number c s =
      match s.drop (span Char.isDigit s) with
      | '.' :: r =>
        if span Char.isDigit r = 0 then verbatim .integer c s (span Char.isDigit s)
        else verbatim .decimal c s (span Char.isDigit s + 1 + span Char.isDigit r)
      | _ => verbatim .integer c s (span Char.isDigit s) :=
  number.eq_3 c s (fun _ hc hs => hhex hc (hs ▸ rfl)) (fun _ hc hs => hbinary hc (hs ▸ rfl))

/-- A digit in front of what is no number is a number of its own. -/
theorem number_alone (hx : EndsDigits x) (hhex : c = '0' → x.head? ≠ some 'x')
    (hbinary : c = '0' → x.head? ≠ some 'b') :
    number c x = ⟨some (.integer, String.ofList [c]), 0⟩ := by
  have hspan : span Char.isDigit x = 0 := span_append_of_head [] fun d hd => (hx d hd).1
  rw [number_eq hhex hbinary, hspan, List.drop_zero]
  split
  · exact absurd rfl (hx '.' rfl).2
  · rfl

/-- Hexadecimal and binary digits behind their prefix. -/
theorem marked_congr {p : Char → Bool} (kind : TokenKind) (mark : Char)
    (hy : ∀ d ∈ y.head?, p d = false) (h : 1 + span p (s ++ x) ≤ (mark :: s).length) :
    verbatim kind c (mark :: s ++ y) (1 + span p (s ++ y)) =
      verbatim kind c (mark :: s ++ x) (1 + span p (s ++ x)) := by
  have hspan : span p (s ++ y) = span p (s ++ x) :=
    span_append_of_le (by rw [List.length_cons] at h; omega) (.inr hy)
  rw [hspan, verbatim_congr kind c h]

theorem digits_congr (c : Char) (hx : EndsDigits x) (hy : EndsDigits y)
    (hhex : c = '0' → s.head? ≠ some 'x') (hbinary : c = '0' → s.head? ≠ some 'b') (hs : s ≠ []) :
    number c (s ++ y) = number c (s ++ x) := by
  have digits {z : List Char} (hz : EndsDigits z) (s : List Char) :
      span Char.isDigit (s ++ z) = span Char.isDigit s :=
    span_append_of_head s fun d hd => (hz d hd).1
  obtain ⟨d, t, rfl⟩ := List.exists_cons_of_ne_nil hs
  have hw := span_le Char.isDigit (d :: t)
  rw [number_eq (s := d :: t ++ y) hhex hbinary, number_eq (s := d :: t ++ x) hhex hbinary,
    digits hx, digits hy, List.drop_append_of_le_length hw, List.drop_append_of_le_length hw]
  generalize hdrop : (d :: t).drop (span Char.isDigit (d :: t)) = behind
  rcases behind with _ | ⟨e, r⟩
  · have hdot {z : List Char} (hz : EndsDigits z) (r : List Char) : [] ++ z ≠ '.' :: r := by
      rintro rfl
      exact (hz '.' rfl).2 rfl
    split
    · next r e => exact absurd e (hdot hy r)
    · split
      · next r e => exact absurd e (hdot hx r)
      · exact verbatim_congr .integer c hw
  · by_cases hd : e = '.'
    · subst hd
      have hn : span Char.isDigit (d :: t) + 1 + span Char.isDigit r ≤ (d :: t).length := by
        have hl := congrArg List.length hdrop
        have hr := span_le Char.isDigit r
        rw [List.length_drop, List.length_cons (a := '.')] at hl
        omega
      simp only [List.cons_append, digits hx, digits hy]
      rw [← List.cons_append, ← List.cons_append, verbatim_congr .integer c hw,
        verbatim_congr .decimal c hn]
    · split
      · next r' e' => exact absurd (List.cons.inj e').1 hd
      · split
        · next r' e' => exact absurd (List.cons.inj e').1 hd
        · exact verbatim_congr .integer c hw

theorem number_congr (c : Char) (hx : EndsDigits x) (hy : EndsNumber y)
    (h : (number c (s ++ x)).more ≤ s.length) : number c (s ++ y) = number c (s ++ x) := by
  rcases s with _ | ⟨d, s⟩
  · -- The prefix of a hexadecimal or binary number would be taken.
    have hhex : c = '0' → x.head? ≠ some 'x' := by
      rintro rfl hd
      obtain ⟨t, rfl⟩ := List.head?_eq_some_iff.mp hd
      simp [number, verbatim] at h
    have hbinary : c = '0' → x.head? ≠ some 'b' := by
      rintro rfl hd
      obtain ⟨t, rfl⟩ := List.head?_eq_some_iff.mp hd
      simp [number, verbatim] at h
    rw [List.nil_append, List.nil_append, number_alone hx hhex hbinary]
    exact number_alone hy.endsDigits (fun _ e => (hy 'x' e).2.2.1 rfl)
      fun _ e => absurd (hy 'b' e).1 (by decide)
  by_cases hhex : c = '0' ∧ d = 'x'
  · obtain ⟨rfl, rfl⟩ := hhex
    exact marked_congr .hex 'x' (fun d hd => (hy d hd).1) h
  by_cases hbinary : c = '0' ∧ d = 'b'
  · obtain ⟨rfl, rfl⟩ := hbinary
    exact marked_congr .binary 'b' (fun d hd => (hy d hd).2.1) h
  exact digits_congr c hx hy.endsDigits (fun hc hd => hhex ⟨hc, Option.some.inj hd⟩)
    (fun hc hd => hbinary ⟨hc, Option.some.inj hd⟩) (List.cons_ne_nil d s)

theorem word_congr (c : Char) (h : (word c (s ++ x)).more ≤ s.length)
    (hxy : (∃ d ∈ x.head?, continuesWord d = true) ∨ ∀ d ∈ y.head?, continuesWord d = false)
    (hx : x.head? ≠ some ':') (hy : y.head? ≠ some ':') : word c (s ++ y) = word c (s ++ x) := by
  have hle : span continuesWord (s ++ x) ≤ s.length := by
    unfold word at h
    dsimp only at h
    split at h
    · exact Nat.le_of_succ_le h
    · exact h
  have hspan := span_append_of_le hle hxy
  have hcolon := head?_append_congr hx hy (s.drop (span continuesWord (s ++ x)))
  simp only [word, hspan, List.drop_append_of_le_length hle, List.take_append_of_le_length hle,
    hcolon]

theorem punctuation_congr (c : Char) (s : List Char) (hx : x.head? ≠ some '=')
    (hy : y.head? ≠ some '=') : punctuation c (s ++ y) = punctuation c (s ++ x) := by
  have one (kind : TokenKind) : verbatim kind c (s ++ y) 0 = verbatim kind c (s ++ x) 0 :=
    verbatim_congr kind c (Nat.zero_le _)
  have withEqual (kind alone : TokenKind) :
      (if (s ++ x).head? = some '=' then verbatim kind c (s ++ y) 1
          else verbatim alone c (s ++ x) 0)
        = if (s ++ x).head? = some '=' then verbatim kind c (s ++ x) 1
          else verbatim alone c (s ++ x) 0 := by
    split
    · next hq =>
      rcases s with _ | ⟨d, s⟩
      · exact absurd hq hx
      · exact verbatim_congr kind c (Nat.le_add_left 1 s.length)
    · rfl
  unfold punctuation
  simp only [one, head?_append_congr hx hy, withEqual]

/-! A blank goes on with nothing of these: in front of it they are as at the end of the source. -/

theorem Ends.head?_ne (hr : Ends rest) {d : Char} (hd : d ≠ ' ' ∧ d ≠ '\n') :
    rest.head? ≠ some d := by
  intro h
  obtain rfl | rfl := hr d h
  · exact hd.1 rfl
  · exact hd.2 rfl

theorem Ends.endsNumber (hr : Ends rest) : EndsNumber rest := by
  intro d hd
  obtain rfl | rfl := hr d hd <;> decide

theorem number_append_of_ends (c : Char) (s : List Char) (hr : Ends rest) :
    number c (s ++ rest) = number c s := by
  have hs : (number c (s ++ [])).more ≤ s.length := by
    rw [List.append_nil]
    exact (sound_number c s).inside
  simpa using number_congr c endsDigits_nil hr.endsNumber hs

theorem word_append_of_ends (c : Char) (s : List Char) (hr : Ends rest) :
    word c (s ++ rest) = word c s := by
  have hs : (word c (s ++ [])).more ≤ s.length := by
    rw [List.append_nil]
    exact (sound_word c s).inside
  have hstop : ∀ d ∈ rest.head?, continuesWord d = false := fun d hd => (hr.endsWord d hd).1
  simpa using word_congr c hs (.inr hstop) (by simp) (hr.head?_ne (by decide))

theorem punctuation_append_of_ends (c : Char) (s : List Char) (hr : Ends rest) :
    punctuation c (s ++ rest) = punctuation c s := by
  simpa using punctuation_congr (x := []) c s (by simp) (hr.head?_ne (by decide))

theorem stringBody_cons (hq : c ≠ '"') (hb : c ≠ '\\') (s : List Char) :
    stringBody (c :: s) = (stringBody s).map fun (value, n) => (c :: value, n + 1) := by
  rw [stringBody]
  · exact hq
  · exact fun e _ => hb e
  · exact fun _ _ e _ => hb e

/-- A character that begins no escape, be it a cut one or a whole one. -/
theorem ne_backslash (hcut : c = '\\' → s = [] → False)
    (hescape : ∀ d t, c = '\\' → s = d :: t → False) : c ≠ '\\' := by
  intro h
  cases s with
  | nil => exact hcut h rfl
  | cons d t => exact hescape d t h rfl

/-- A literal that is closed ends where it ends with more text behind it. -/
theorem stringBody_append {value : List Char} {n : Nat} (h : stringBody s = some (value, n))
    (rest : List Char) : stringBody (s ++ rest) = some (value, n) := by
  fun_induction stringBody s generalizing value n with
  | case1 => cases h
  | case2 => exact h
  | case3 => cases h
  | case4 c s ih =>
    obtain ⟨⟨v, k⟩, hk, hv⟩ := Option.map_eq_some_iff.mp h
    rw [List.cons_append, List.cons_append, stringBody, ih hk]
    exact congrArg some hv
  | case5 c s hq hn hs ih =>
    obtain ⟨⟨v, k⟩, hk, hv⟩ := Option.map_eq_some_iff.mp h
    rw [List.cons_append, stringBody_cons hq (ne_backslash hn hs), ih hk]
    exact congrArg some hv

theorem stringLiteral_append {kind : TokenKind} {text : String}
    (h : (stringLiteral s).token? = some (kind, text)) (hk : kind ≠ .error) (rest : List Char) :
    stringLiteral (s ++ rest) = stringLiteral s := by
  unfold stringLiteral at h ⊢
  rcases hs : stringBody s with _ | ⟨value, n⟩
  · rw [hs] at h
    cases h
    exact absurd rfl hk
  · rw [stringBody_append hs]

theorem literalChar_cons (hc : c ≠ '\\') (s : List Char) : literalChar (c :: s) = (some c, 1) := by
  rw [literalChar]
  · exact fun e _ => hc e
  · exact fun _ _ e _ => hc e

theorem literalChar_append {d : Char} {n : Nat} (h : literalChar s = (some d, n))
    (rest : List Char) : literalChar (s ++ rest) = (some d, n) := by
  fun_cases literalChar s with
  | case1 => cases h
  | case2 => cases h
  | case3 c s => exact h
  | case4 c s hn hs =>
    have hc : c ≠ '\\' := ne_backslash hn hs
    rw [literalChar_cons hc] at h
    rw [List.cons_append, literalChar_cons hc]
    exact h

theorem charLiteral_of_closed {d : Char} {n : Nat} (hn : s.head? ≠ some '\n')
    (hd : literalChar s = (some d, n)) (hq : (s.drop n).head? = some '\'') :
    charLiteral s = ⟨some (.char, d.toString), n + 1⟩ := by
  rw [charLiteral, if_neg hn, hd]
  dsimp only
  rw [hq]
  rfl

theorem closed_of_charLiteral {kind : TokenKind} {text : String}
    (h : (charLiteral s).token? = some (kind, text)) (hk : kind ≠ .error) :
    s.head? ≠ some '\n' ∧ ∃ d n, literalChar s = (some d, n) ∧ (s.drop n).head? = some '\'' := by
  unfold charLiteral at h
  by_cases hn : s.head? = some '\n'
  · rw [if_pos hn] at h
    cases h
    exact absurd rfl hk
  · rw [if_neg hn] at h
    refine ⟨hn, ?_⟩
    rcases hd : literalChar s with ⟨value, n⟩
    rw [hd] at h
    dsimp only at h
    split at h
    · next d hq => exact ⟨d, n, rfl, hq⟩
    · cases h
      exact absurd rfl hk

theorem charLiteral_append {kind : TokenKind} {text : String}
    (h : (charLiteral s).token? = some (kind, text)) (hk : kind ≠ .error) (rest : List Char) :
    charLiteral (s ++ rest) = charLiteral s := by
  obtain ⟨hn, d, n, hd, hq⟩ := closed_of_charLiteral h hk
  have hlt : n < s.length := by
    by_contra hle
    rw [List.drop_eq_nil_of_le (Nat.le_of_not_lt hle)] at hq
    cases hq
  have hhead : (s ++ rest).head? ≠ some '\n' := by
    cases s with
    | nil => cases hlt
    | cons c s => exact hn
  have hbehind : ((s ++ rest).drop n).head? = some '\'' := by
    rw [List.head?_drop, List.getElem?_append_left hlt, ← List.head?_drop]
    exact hq
  rw [charLiteral_of_closed hn hd hq]
  exact charLiteral_of_closed hhead (literalChar_append hd rest) hbehind

/-- A comment opens at the default mark. -/
theorem opens_iff : Opens ['#'] (c :: s) ↔ c = '#' := by
  unfold Opens opensWith opensWith
  rw [Bool.and_true, beq_iff_eq]
  constructor
  · rintro ⟨-, rfl⟩
    rfl
  · rintro rfl
    exact ⟨List.cons_ne_nil _ _, rfl⟩

theorem lexeme_of_ne_mark (hc : c ≠ '#') (s : List Char) :
    lexeme ['#'] c s =
      if c.isDigit || (c == '-' && s.head?.any Char.isDigit) then number c s
      else if c = '\'' then charLiteral s
      else if c = '"' then stringLiteral s
      else if startsWord c then word c s
      else punctuation c s := by
  rw [lexeme, not_opensWith hc]
  rfl

/-- A token that is no error is found in front of a blank as it is at the end of the source. -/
theorem lexeme_append_of_ends {kind : TokenKind} {text : String}
    (h : (lexeme ['#'] c s).token? = some (kind, text)) (hk : kind ≠ .error) (hr : Ends rest) :
    lexeme ['#'] c (s ++ rest) = lexeme ['#'] c s := by
  have hc : c ≠ '#' := by
    rintro rfl
    rw [lexeme_of_opens (opens_iff.mpr rfl)] at h
    cases h
  have hdigit : (s ++ rest).head?.any Char.isDigit = s.head?.any Char.isDigit := by
    cases s with
    | cons => rfl
    | nil =>
      cases rest with
      | nil => rfl
      | cons d rest => obtain rfl | rfl := hr d rfl <;> rfl
  have hshape : shape ['#'] c (s ++ rest) = shape ['#'] c s :=
    shape_congr ((not_opensWith hc _).trans (not_opensWith hc _).symm) hdigit
  have hbegins := shape_begins ['#'] c s
  rw [lexeme_eq_read] at h
  rw [lexeme_eq_read, lexeme_eq_read, hshape]
  generalize shape ['#'] c s = found at h hbegins ⊢
  cases found with
  | comment => exact absurd (opens_iff.mp hbegins) hc
  | number => exact number_append_of_ends c s hr
  | charLiteral => exact charLiteral_append h hk rest
  | stringLiteral => exact stringLiteral_append h hk rest
  | word => exact word_append_of_ends c s hr
  | punctuation => exact punctuation_append_of_ends c s hr

end

/-! ### Sources up to the end of a line -/

/-- What can stand at the end of a line and is no token: nothing, or a comment behind a blank. -/
inductive Idle : List Char → Prop where
  | nil : Idle []
  | comment {s : List Char} (h : '\n' ∉ s) : Idle (' ' :: '#' :: s)

/-- The end of a line, or of the source. -/
def LineEnd (rest : List Char) : Prop := ∀ c ∈ rest.head?, c = '\n'

variable {line rest : List Char}

theorem lineEnd_nil : LineEnd [] := by
  intro c hc
  cases hc

theorem ends_append (hl : Idle line) (hr : LineEnd rest) : Ends (line ++ rest) := by
  cases hl with
  | nil => exact fun c hc => .inr (hr c hc)
  | comment =>
    intro c hc
    cases hc
    exact .inl rfl

theorem Idle.not_mem (hl : Idle line) : '\n' ∉ line := by
  cases hl with
  | nil => exact List.not_mem_nil
  | comment h => simpa using h

theorem lexeme_mark (s : List Char) : lexeme ['#'] '#' s = ⟨none, span (· != '\n') s⟩ :=
  lexeme_of_opens (opens_iff.mpr rfl)

theorem more_lexeme_le (c : Char) (s : List Char) : (lexeme ['#'] c s).more ≤ s.length := by
  by_cases hc : c = '#'
  · rw [hc, lexeme_mark]
    exact span_le _ s
  · exact (sound_lexeme fun ho => hc (opens_iff.mp ho)).inside

/-- A comment ends at the end of its line. -/
theorem span_comment {s : List Char} (hs : '\n' ∉ s) (hr : LineEnd rest) :
    span (· != '\n') (s ++ rest) = s.length :=
  span_append (fun c hc => bne_iff_ne.mpr fun e => hs (e ▸ hc)) fun c hc => by rw [hr c hc]; rfl

theorem scanFrom_comment {s : List Char} (hs : '\n' ∉ s) (hr : LineEnd rest) (p : Position) :
    scanFrom ['#'] p ('#' :: (s ++ rest)) = scanFrom ['#'] (p.after ('#' :: s)) rest := by
  rw [scanFrom, if_neg (by decide)]
  simp only [lexeme_mark, span_comment hs hr, List.take_left, List.drop_left]

theorem scanFrom_idle (hl : Idle line) (hr : LineEnd rest) (p : Position) :
    scanFrom ['#'] p (line ++ rest) = scanFrom ['#'] (p.after line) rest := by
  cases hl with
  | nil => rfl
  | @comment s hs => exact (scanFrom_blank (by decide) p _).trans (scanFrom_comment hs hr _)

/-- A line feed of the source ends a comment before what is behind the source can. -/
theorem span_append_of_mem {s : List Char} (hs : '\n' ∈ s) (rest : List Char) :
    span (· != '\n') (s ++ rest) = span (· != '\n') s := by
  have hne : (s.takeWhile (· != '\n')).length ≠ s.length := by
    intro he
    have hall := (List.takeWhile_prefix (l := s) (· != '\n')).eq_of_length he
    have := List.mem_takeWhile_imp (hall ▸ hs)
    exact absurd this (by decide)
  rw [span, span, List.takeWhile_append, if_neg hne]

theorem mark_of_token?_eq_none {c : Char} {s : List Char}
    (h : (lexeme ['#'] c s).token? = none) : c = '#' := by
  by_contra hc
  have ht := (sound_lexeme fun ho : Opens ['#'] (c :: s) => hc (opens_iff.mp ho)).token
  rw [h] at ht
  cases ht

/-- Up to the end of a line in front of which there is no error a source is scanned as if it ended
there, and from there on as if it began there. -/
theorem scanFrom_append (hl : Idle line) (hr : LineEnd rest) {p : Position} {s : List Char}
    (h : ∀ t ∈ scanFrom ['#'] p s, t.kind ≠ .error) :
    scanFrom ['#'] p (s ++ (line ++ rest)) =
      (scanFrom ['#'] p s).dropLast ++ scanFrom ['#'] (p.after (s ++ line)) rest := by
  have step {c : Char} {s : List Char} (p : Position) :
      (p.after (c :: s.take (lexeme ['#'] c s).more)).after
          (s.drop (lexeme ['#'] c s).more ++ line) = p.after (c :: s ++ line) := by
    rw [← Position.after_append, List.cons_append, ← List.append_assoc, List.take_append_drop]
    rfl
  fun_induction scanFrom ['#'] p s with
  | case1 p => exact scanFrom_idle hl hr p
  | case2 p c s hb ih =>
    rw [List.cons_append, scanFrom_blank hb, ih h]
    rfl
  | case3 p c s hb front q ht ih =>
    obtain rfl := mark_of_token?_eq_none ht
    by_cases hs : '\n' ∈ s
    · have hsame : lexeme ['#'] '#' (s ++ (line ++ rest)) = lexeme ['#'] '#' s := by
        rw [lexeme_mark, lexeme_mark, span_append_of_mem hs]
      have hf : (lexeme ['#'] '#' s).token? = none := ht
      rw [List.cons_append, scanFrom, if_neg hb]
      simp only [hsame, hf, List.take_append_of_le_length (more_lexeme_le '#' s),
        List.drop_append_of_le_length (more_lexeme_le '#' s)]
      rw [ih h, step]
    -- The comment at the end of the source goes on to the end of the line.
    · have hm : front.more = s.length := by
        have hspan : span (· != '\n') (s ++ []) = s.length := span_comment hs lineEnd_nil
        rw [List.append_nil] at hspan
        rw [← hspan]
        exact congrArg Lexeme.more (lexeme_mark s)
      have hline : '\n' ∉ s ++ line := fun hm => (List.mem_append.mp hm).elim hs hl.not_mem
      rw [hm, List.drop_length, scanFrom_nil, List.cons_append, ← List.append_assoc,
        scanFrom_comment hline hr]
      rfl
  | case4 p c s hb front q kind text ht ih =>
    have hk : kind ≠ .error := h _ List.mem_cons_self
    have hf : (lexeme ['#'] c s).token? = some (kind, text) := ht
    have hsame := lexeme_append_of_ends hf hk (ends_append hl hr)
    rw [List.cons_append, scanFrom, if_neg hb]
    simp only [hsame, hf, List.take_append_of_le_length (more_lexeme_le c s),
      List.drop_append_of_le_length (more_lexeme_le c s)]
    rw [ih fun t m => h t (List.mem_cons_of_mem _ m), step,
      List.dropLast_cons_of_ne_nil (scanFrom_ne_nil _ _ _)]
    rfl

theorem after_eq_placeAt (s : List Char) : Position.after {} s = placeAt s s.length := by
  have hp : s <+: s.drop 0 := List.prefix_refl s
  have h := placeAt_after hp
  rwa [Nat.zero_add] at h

/-- A source that is one lexeme is one token. -/
theorem scan_of_lexeme {source : String} {c : Char} {s : List Char} {kind : TokenKind}
    {text : String} (hs : source.toList = c :: s) (hc : Text.isBlank c = false)
    (hl : lexeme ['#'] c s = ⟨some (kind, text), s.length⟩) :
    scan source = [⟨kind, text, {}, source.length⟩, endMark source.toList] := by
  have hd : defaultLeader.toList = ['#'] := by decide_cbv
  have hstop : (placeAt source.toList source.toList.length).offset = source.length := by
    rw [placeAt, String.length_toList]
  rw [scan, hd, hs, scanFrom, if_neg (by simp [hc]), hl]
  dsimp only
  rw [List.take_length, List.drop_length, scanFrom_nil, ← hs, after_eq_placeAt, hstop, endMark,
    String.length_toList]

theorem scan_of_lexes {w : Piece} (h : Lexes w) :
    scan w.text = [⟨w.kind, w.text, {}, w.text.length⟩, endMark w.text.toList] := by
  obtain ⟨c, s, hs, hc, hf⟩ := h.front
  have hl := hf [] nofun
  rw [List.append_nil] at hl
  exact scan_of_lexeme hs hc hl

/-- A line feed begins a new line, the tokens of which are those of a source of its own. -/
theorem scanFrom_append_newline (hl : Idle line) {s : List Char}
    (h : ∀ t ∈ scanFrom ['#'] {} s, t.kind ≠ .error) (rest : List Char) :
    scanFrom ['#'] {} (s ++ (line ++ '\n' :: rest)) = (scanFrom ['#'] {} s).dropLast ++
      (scanFrom ['#'] {} rest).map
        (shift ((s ++ line).length + 1) (s.count '\n' + 1)) := by
  have hcount : (s ++ line).count '\n' = s.count '\n' := by
    rw [List.count_append, List.count_eq_zero.mpr hl.not_mem, Nat.add_zero]
  have hnext : (Position.after {} (s ++ line)).next '\n' =
      Position.shift ((s ++ line).length + 1) (s.count '\n' + 1) {} := by
    rw [after_eq_placeAt, Position.next, if_pos rfl, placeAt, List.take_length, hcount]
    rw [Position.shift, Nat.zero_add, Nat.add_assoc]
  have hr : LineEnd ('\n' :: rest) := fun c hc => by
    cases hc
    rfl
  rw [scanFrom_append hl hr h, scanFrom_blank (by decide), hnext, scanFrom_shift]

theorem scanFrom_append_idle (hl : Idle line) {s : List Char}
    (h : ∀ t ∈ scanFrom ['#'] {} s, t.kind ≠ .error) :
    scanFrom ['#'] {} (s ++ line) = (scanFrom ['#'] {} s).dropLast ++ [endMark (s ++ line)] := by
  have he := scanFrom_append hl lineEnd_nil h
  rw [List.append_nil, scanFrom_nil, after_eq_placeAt] at he
  exact he

theorem appearance_shift (offset offset' line : Nat) (ts : List Token) :
    (ts.map (shift offset line)).map appearance = (ts.map (shift offset' line)).map appearance := by
  rw [List.map_map, List.map_map]
  rfl

/-- A source without errors ends its line: with the line feed begins another one, whose tokens are
the same but for the place where it begins. So a comment at the end of the line changes neither what
the tokens are nor where they stand on which line. -/
theorem scan_lines (a b : String) (h : ∀ t ∈ scan a, t.kind ≠ .error) :
    ∃ body, scan a = body ++ [endMark a.toList] ∧
      scan (a ++ "\n" ++ b) =
        body ++ (scan b).map (shift (a.length + 1) (a.toList.count '\n' + 1)) ∧
      ∀ comment : String, '\n' ∉ comment.toList →
        scan (a ++ " #" ++ comment) = body ++ [endMark (a ++ " #" ++ comment).toList] ∧
          (scan (a ++ " #" ++ comment ++ "\n" ++ b)).map appearance =
            (scan (a ++ "\n" ++ b)).map appearance := by
  have hd : defaultLeader.toList = ['#'] := by decide_cbv
  obtain ⟨body, hbody, -⟩ := (path_scan a defaultLeader).exists_body
  have hdrop : (scan a).dropLast = body := by rw [hbody, List.dropLast_concat]
  have hlength : a.toList.length = a.length := String.length_toList
  have hcut : (a ++ "\n" ++ b).toList = a.toList ++ ([] ++ '\n' :: b.toList) := by simp
  unfold scan at h hdrop ⊢
  rw [hd] at h hdrop ⊢
  have plain := scanFrom_append_newline .nil h b.toList
  rw [hdrop, ← hcut, List.append_nil, hlength] at plain
  refine ⟨body, hbody, plain, fun comment hc => ?_⟩
  have hidle : Idle (' ' :: '#' :: comment.toList) := .comment hc
  have hlast : (a ++ " #" ++ comment).toList = a.toList ++ ' ' :: '#' :: comment.toList := by simp
  have hmore : (a ++ " #" ++ comment ++ "\n" ++ b).toList =
      a.toList ++ (' ' :: '#' :: comment.toList ++ '\n' :: b.toList) := by simp
  constructor
  · rw [hlast, scanFrom_append_idle hidle h, hdrop]
  · rw [hmore, scanFrom_append_newline hidle h, hdrop, plain, List.map_append, List.map_append]
    exact congrArg (_ ++ ·) (appearance_shift _ _ _ _)

/-- A comment with a quote behind a label and a character, above a text over two lines. -/
theorem scan_lines_of_quotes :
    (∀ t ∈ scan "x: '\"' # it's", t.kind ≠ .error) ∧
      ∃ body, scan "x: '\"' # it's" = body ++ [endMark "x: '\"' # it's".toList] ∧
        scan "x: '\"' # it's\n  \"a\nb\" 7" =
          body ++ (scan "  \"a\nb\" 7").map (shift 14 1) ∧
        (scan "x: '\"' # it's # 'n\n  \"a\nb\" 7").map appearance =
          (scan "x: '\"' # it's\n  \"a\nb\" 7").map appearance := by
  have hts : scan "x: '\"' # it's" = [⟨.label, "x", ⟨0, 1, 0⟩, 2⟩, ⟨.char, "\"", ⟨3, 1, 3⟩, 6⟩,
      ⟨.eof, "", ⟨13, 1, 13⟩, 13⟩] := by
    decide_cbv
  have h : ∀ t ∈ scan "x: '\"' # it's", t.kind ≠ .error := by simp [hts]
  obtain ⟨body, hbody, hscan, hcomment⟩ := scan_lines "x: '\"' # it's" "  \"a\nb\" 7" h
  exact ⟨h, body, hbody, hscan, (hcomment " 'n" (by decide_cbv)).2⟩

end Token
end Minicomputer
