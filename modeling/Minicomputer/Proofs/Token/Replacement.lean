import Minicomputer.Proofs.Token.Lines

/-!
# Words that take the place of a word

Where a word is replaced in a source, the tokens in front of it stay, as the scanner never looks
further than to the first character of a word that it does not take itself. The tokens behind it are
displaced as a whole: they stay on their lines, and those that touched one another still do.
-/

set_option autoImplicit false

namespace Minicomputer.Token

/-! ### What is found in front of a word -/

/-- A text that begins with a character of a word, and no digit. -/
def BeginsWord (x : List Char) : Prop := ∃ c s, x = c :: s ∧ startsWord c = true

/-- A text that begins with a letter which goes on with no number. -/
def BeginsApart (x : List Char) : Prop :=
  ∃ c s, x = c :: s ∧ c.isAlpha = true ∧ isHexDigit c = false ∧ c ≠ 'x'

/-- A comment leader that a word has no part in. -/
def Wordless (leader : List Char) : Prop := ∀ c ∈ leader, continuesWord c = false

theorem wordless_defaultLeader : Wordless defaultLeader.toList := by
  change Wordless ['#']
  exact List.forall_mem_singleton.mpr (by decide)

theorem continuesWord_of_startsWord {c : Char} (h : startsWord c = true) :
    continuesWord c = true := by
  rw [startsWord, Bool.or_eq_true] at h
  rw [continuesWord, Bool.or_eq_true, Char.isAlphanum, Bool.or_eq_true]
  exact h.imp .inl id

theorem BeginsApart.beginsWord {x : List Char} (h : BeginsApart x) : BeginsWord x := by
  obtain ⟨c, s, rfl, hc, -, -⟩ := h
  exact ⟨c, s, rfl, by rw [startsWord, hc, Bool.true_or]⟩

section

variable {x y : List Char}

theorem BeginsWord.head?_ne (hx : BeginsWord x) {d : Char} (hd : startsWord d = false) :
    x.head? ≠ some d := by
  obtain ⟨c, s, rfl, hc⟩ := hx
  rintro h
  cases h
  rw [hc] at hd
  cases hd

/-- A word goes on with no digits, and a letter that is no digit with no number. -/
theorem BeginsWord.endsDigits (hx : BeginsWord x) : EndsDigits x := by
  obtain ⟨c, s, rfl, hc⟩ := hx
  rintro d hd
  cases hd
  refine ⟨not_isDigit_of_startsWord hc, ?_⟩
  rintro rfl
  cases hc

theorem BeginsApart.endsNumber (hy : BeginsApart y) : EndsNumber y := by
  have hdigits := hy.beginsWord.endsDigits
  obtain ⟨c, s, rfl, halpha, hhex, hx⟩ := hy
  rintro d hd
  cases hd
  have := isAlpha_bounds halpha
  have hne (e : Char) (he : e.toNat < 65 ∨ e.toNat = 95) : (c == e) = false := by
    refine beq_false_of_ne (ne_of_toNat ?_)
    omega
  have hbinary : isBinaryDigit c = false := by
    rw [isBinaryDigit, hne '0' (by decide), hne '1' (by decide), hne '_' (by decide)]
    rfl
  exact ⟨hhex, hbinary, hx, (hdigits c rfl).2⟩

/-- A literal of a character ends within a text that its character is in. -/
theorem charLiteral_of_inside {s : List Char} {value : Option Char} {n : Nat} (hx : BeginsWord x)
    (hy : BeginsWord y) (hn : n ≤ s.length)
    (h : ∀ z, (if (s ++ z).head? = some '\n' then (none, 0) else literalChar (s ++ z)) =
      (value, n)) :
    charLiteral (s ++ y) = charLiteral (s ++ x) := by
  have hquote := head?_append_congr (hx.head?_ne (d := '\'') (by decide)) (hy.head?_ne (by decide))
    (s.drop n)
  rw [← List.drop_append_of_le_length hn, ← List.drop_append_of_le_length hn] at hquote
  unfold charLiteral
  rw [h, h]
  dsimp only
  rw [List.take_append_of_le_length hn, List.take_append_of_le_length hn]
  cases value with
  | none => rfl
  | some c =>
    by_cases hq : ((s ++ x).drop n).head? = some '\''
    · rw [hq, hquote.mpr hq]
    · split
      · next hq' => exact absurd (hquote.mp hq') hq
      · split
        · next hq' => exact absurd hq' hq
        · rfl

theorem charLiteral_replaced {s : List Char} (hx : BeginsWord x) (hy : BeginsWord y)
    (h : (charLiteral (s ++ x)).more ≤ s.length) : charLiteral (s ++ y) = charLiteral (s ++ x) := by
  have hlarge {value : Option Char} {s' : List Char} {n : Nat} (hs : s'.head? ≠ some '\n')
      (hv : literalChar s' = (value, n)) : n ≤ (charLiteral s').more := by
    unfold charLiteral
    rw [if_neg hs, hv]
    dsimp only
    split
    · exact Nat.le_succ n
    · exact Nat.le_refl n
  obtain ⟨d, t, rfl, hd⟩ := id hx
  rcases s with _ | ⟨c, s⟩
  · have hne : d ≠ '\\' := by
      rintro rfl
      cases hd
    have := hlarge (hx.head?_ne (by decide)) (literalChar_cons hne t)
    simp only [List.nil_append, List.length_nil] at h
    omega
  · by_cases hb : c = '\\'
    · subst hb
      rcases s with _ | ⟨e, s⟩
      · have hescape : ('\\' :: d :: t).head? ≠ some '\n' := by simp
        have := hlarge hescape rfl
        simp only [List.cons_append, List.nil_append, List.length_cons, List.length_nil] at h
        omega
      · exact charLiteral_of_inside hx hy (n := 2) (by simp) fun z => rfl
    · by_cases hn : c = '\n'
      · subst hn
        exact charLiteral_of_inside hx hy (Nat.zero_le _) fun z => rfl
      · have hc (z : List Char) : (if (c :: s ++ z).head? = some '\n' then (none, 0)
            else literalChar (c :: s ++ z)) = (some c, 1) := by
          rw [List.cons_append, if_neg (by simpa using hn), literalChar_cons hb]
        exact charLiteral_of_inside hx hy (by simp) hc

theorem stringBody_replaced {s value : List Char} {n : Nat} (hx : BeginsWord x)
    (h : stringBody (s ++ x) = some (value, n)) (hn : n ≤ s.length) :
    stringBody (s ++ y) = some (value, n) := by
  obtain ⟨d, t, rfl, hd⟩ := hx
  have hquote : d ≠ '"' := by
    rintro rfl
    cases hd
  have hback : d ≠ '\\' := by
    rintro rfl
    cases hd
  fun_induction stringBody s generalizing value n with
  | case1 =>
    rw [List.nil_append, stringBody_cons hquote hback] at h
    obtain ⟨⟨v, k⟩, -, hv⟩ := Option.map_eq_some_iff.mp h
    cases hv
    cases hn
  | case2 s => exact h
  | case3 =>
    rw [List.cons_append, List.nil_append, stringBody] at h
    obtain ⟨⟨v, k⟩, -, hv⟩ := Option.map_eq_some_iff.mp h
    cases hv
    simp at hn
  | case4 c s ih =>
    rw [List.cons_append, List.cons_append, stringBody] at h ⊢
    obtain ⟨⟨v, k⟩, hk, hv⟩ := Option.map_eq_some_iff.mp h
    cases hv
    rw [ih (by simpa using hn) hk]
    rfl
  | case5 c s hq hb hs ih =>
    have hne := ne_backslash hb hs
    rw [List.cons_append, stringBody_cons hq hne] at h ⊢
    obtain ⟨⟨v, k⟩, hk, hv⟩ := Option.map_eq_some_iff.mp h
    cases hv
    rw [ih (by simpa using hn) hk]
    rfl

theorem stringLiteral_replaced {s : List Char} (hx : BeginsWord x)
    (h : (stringLiteral (s ++ x)).more ≤ s.length) :
    stringLiteral (s ++ y) = stringLiteral (s ++ x) := by
  unfold stringLiteral at h ⊢
  cases hs : stringBody (s ++ x) with
  | none =>
    obtain ⟨d, t, rfl, -⟩ := hx
    rw [hs] at h
    simp at h
  | some found =>
    rw [hs] at h
    rw [stringBody_replaced hx hs h]

theorem opensWith_word {l : Char} {leader : List Char} (hl : Wordless (l :: leader))
    (hx : BeginsWord x) : opensWith (l :: leader) x = false := by
  obtain ⟨d, t, rfl, hd⟩ := hx
  have hne : (l == d) = false := by
    refine beq_false_of_ne ?_
    rintro rfl
    have hlead := hl l List.mem_cons_self
    rw [continuesWord_of_startsWord hd] at hlead
    cases hlead
  rw [opensWith, hne, Bool.false_and]

theorem opensWith_replaced {leader : List Char} (hl : Wordless leader) (hx : BeginsWord x)
    (hy : BeginsWord y) (s : List Char) :
    opensWith leader (s ++ y) = opensWith leader (s ++ x) := by
  induction leader generalizing s with
  | nil => rfl
  | cons l leader ih =>
    cases s with
    | nil => exact (opensWith_word hl hy).trans (opensWith_word hl hx).symm
    | cons c s =>
      rw [List.cons_append, List.cons_append, opensWith, opensWith,
        ih fun d hd => hl d (List.mem_cons_of_mem _ hd)]

/-- What stands in front of a word is found in front of another one too, unless it takes something
of the word. -/
theorem lexeme_replaced {leader : List Char} (hl : Wordless leader) (hx : BeginsWord x)
    (hy : BeginsApart y) {c : Char} {s : List Char}
    (h : (lexeme leader c (s ++ x)).more ≤ s.length) :
    lexeme leader c (s ++ y) = lexeme leader c (s ++ x) := by
  have hy' := hy.beginsWord
  have hopens := opensWith_replaced hl hx hy' (c :: s)
  rw [List.cons_append, List.cons_append] at hopens
  have hdigit : (s ++ y).head?.any Char.isDigit = (s ++ x).head?.any Char.isDigit := by
    cases s with
    | nil =>
      obtain ⟨d, t, rfl, hd⟩ := hx
      obtain ⟨e, u, rfl, he⟩ := hy'
      exact (not_isDigit_of_startsWord he).trans (not_isDigit_of_startsWord hd).symm
    | cons d s => rfl
  rw [lexeme_eq_read] at h
  rw [lexeme_eq_read, lexeme_eq_read, shape_congr hopens hdigit]
  generalize shape leader c (s ++ x) = found at h ⊢
  cases found with
  | comment =>
    have hline : ∃ d ∈ x.head?, (d != '\n') = true := by
      obtain ⟨d, t, rfl, hd⟩ := hx
      refine ⟨d, rfl, bne_iff_ne.mpr ?_⟩
      rintro rfl
      cases hd
    rw [Shape.read, Shape.read, span_append_of_le h (.inl hline)]
  | number => exact number_congr c hx.endsDigits hy.endsNumber h
  | charLiteral => exact charLiteral_replaced hx hy' h
  | stringLiteral => exact stringLiteral_replaced hx h
  | word =>
    have hgoes : ∃ d ∈ x.head?, continuesWord d = true := by
      obtain ⟨d, t, rfl, hd⟩ := hx
      exact ⟨d, rfl, continuesWord_of_startsWord hd⟩
    exact word_congr c h (.inl hgoes) (hx.head?_ne (by decide)) (hy'.head?_ne (by decide))
  | punctuation =>
    exact punctuation_congr c s (hx.head?_ne (by decide)) (hy'.head?_ne (by decide))

end

/-! ### Tokens one by one -/

/-- The token that a lexeme is at a place of the source, if it is one. -/
def Lexeme.token (l : Lexeme) (p q : Position) : List Token :=
  (l.token?.map fun (kind, text) => ⟨kind, text, p, q.offset⟩).toList

/-- What is not blank makes a token or a comment, and the scanner goes on behind it. -/
theorem scanFrom_lexeme {leader : List Char} {c : Char} (hb : Text.isBlank c = false) (p : Position)
    (s : List Char) :
    scanFrom leader p (c :: s) =
      (lexeme leader c s).token p (p.after (c :: s.take (lexeme leader c s).more)) ++
        scanFrom leader (p.after (c :: s.take (lexeme leader c s).more))
          (s.drop (lexeme leader c s).more) := by
  rw [scanFrom, if_neg (by simp [hb])]
  dsimp only
  rw [Lexeme.token]
  cases (lexeme leader c s).token? <;> rfl

/-- The way of the scanner as an induction: over blanks one by one, and over what else it takes. -/
theorem scanFrom_induction (leader : List Char) {motive : Position → List Char → Prop}
    (nil : ∀ p, motive p [])
    (blank : ∀ p c s, Text.isBlank c = true → motive (p.next c) s → motive p (c :: s))
    (front : ∀ p c s, Text.isBlank c = false →
      motive (p.after (c :: s.take (lexeme leader c s).more)) (s.drop (lexeme leader c s).more) →
        motive p (c :: s)) (p : Position) (s : List Char) : motive p s := by
  fun_induction scanFrom leader p s with
  | case1 p => exact nil p
  | case2 p c s hb ih => exact blank p c s hb ih
  | case3 p c s hb _ _ _ ih => exact front p c s (by simpa using hb) ih
  | case4 p c s hb _ _ _ _ _ ih => exact front p c s (by simpa using hb) ih

theorem offset_next (p : Position) (c : Char) : (p.next c).offset = p.offset + 1 :=
  Position.offset_after p [c]

theorem start_of_mem_token {l : Lexeme} {p q : Position} {t : Token} (h : t ∈ l.token p q) :
    t.start = p := by
  obtain ⟨_, -, rfl⟩ := Option.map_eq_some_iff.mp (Option.mem_toList.mp h)
  rfl

theorem le_offset_of_mem {leader : List Char} {p : Position} {s : List Char} {t : Token}
    (ht : t ∈ scanFrom leader p s) : p.offset ≤ t.start.offset := by
  induction p, s using scanFrom_induction leader with
  | nil p =>
    rw [scanFrom_nil] at ht
    obtain rfl := List.mem_singleton.mp ht
    exact Nat.le_refl _
  | blank p c s hb ih =>
    rw [scanFrom_blank hb] at ht
    have := ih ht
    have := offset_next p c
    omega
  | front p c s hb ih =>
    rw [scanFrom_lexeme hb] at ht
    obtain ht | ht := List.mem_append.mp ht
    · rw [start_of_mem_token ht]
    · have := ih ht
      rw [Position.offset_after] at this
      omega

/-- A token is the lexeme that stands at its place. -/
theorem exists_lexeme_of_mem {leader : List Char} {p : Position} {source : List Char} {t : Token}
    (ht : t ∈ scanFrom leader p source) (hk : t.kind ≠ .eof) :
    ∃ s c r, source = s ++ c :: r ∧ Text.isBlank c = false ∧ t ∈ (lexeme leader c r).token
      (p.after s) ((p.after s).after (c :: r.take (lexeme leader c r).more)) := by
  induction p, source using scanFrom_induction leader with
  | nil p =>
    rw [scanFrom_nil] at ht
    obtain rfl := List.mem_singleton.mp ht
    exact absurd rfl hk
  | blank p c s hb ih =>
    rw [scanFrom_blank hb] at ht
    obtain ⟨s', d, r, rfl, hd, h⟩ := ih ht
    exact ⟨c :: s', d, r, rfl, hd, h⟩
  | front p c s hb ih =>
    rw [scanFrom_lexeme hb] at ht
    obtain ht | ht := List.mem_append.mp ht
    · exact ⟨[], c, s, rfl, hb, ht⟩
    · obtain ⟨s', d, r, hs, hd, h⟩ := ih ht
      refine ⟨c :: s.take (lexeme leader c s).more ++ s', d, r, ?_, hd, ?_⟩
      · rw [List.cons_append, List.cons_append, List.append_assoc, ← hs, List.take_append_drop]
      · rw [Position.after_append]
        exact h

/-- The tokens in front of a word stay where another text takes its place. -/
theorem scanFrom_replaced {leader : List Char} (hl : Wordless leader) {x y : List Char}
    (hx : BeginsWord x) (hy : BeginsApart y) {p : Position} {s : List Char} {t : Token}
    (ht : t ∈ scanFrom leader p (s ++ x)) (hstart : t.start.offset = p.offset + s.length) :
    ∃ front, scanFrom leader p (s ++ x) = front ++ scanFrom leader (p.after s) x ∧
      scanFrom leader p (s ++ y) = front ++ scanFrom leader (p.after s) y := by
  generalize hsource : s ++ x = source at ht
  induction p, source using scanFrom_induction leader generalizing s with
  | nil p =>
    obtain ⟨d, u, rfl, -⟩ := hx
    simp at hsource
  | blank p c source hb ih =>
    rcases s with _ | ⟨d, s⟩
    · exact ⟨[], congrArg (scanFrom leader p) hsource.symm, rfl⟩
    rw [List.cons_append] at hsource
    obtain ⟨rfl, rfl⟩ := List.cons.inj hsource
    rw [scanFrom_blank hb] at ht
    have hoffset := offset_next p d
    rw [List.length_cons] at hstart
    obtain ⟨front, hfx, hfy⟩ := ih (by omega) rfl ht
    refine ⟨front, ?_, ?_⟩
    · rw [scanFrom_blank hb, hfx]
      rfl
    · rw [List.cons_append, scanFrom_blank hb, hfy]
      rfl
  | front p c source hb ih =>
    rcases s with _ | ⟨d, s⟩
    · exact ⟨[], congrArg (scanFrom leader p) hsource.symm, rfl⟩
    rw [List.cons_append] at hsource
    obtain ⟨rfl, rfl⟩ := List.cons.inj hsource
    rw [scanFrom_lexeme hb] at ht
    rw [List.length_cons] at hstart
    have hlater : t ∈ scanFrom leader _ _ := (List.mem_append.mp ht).resolve_left fun h => by
      rw [start_of_mem_token h] at hstart
      omega
    -- The word is found at its place, so that nothing in front of it takes something of it.
    have hmore : (lexeme leader d (s ++ x)).more ≤ s.length := by
      have hle := le_offset_of_mem hlater
      rw [Position.offset_after, List.length_cons, List.length_take, List.length_append] at hle
      obtain ⟨_, _, rfl, -⟩ := hx
      rw [List.length_cons] at hle
      omega
    have heq := lexeme_replaced hl hx hy hmore
    rw [List.take_append_of_le_length hmore, List.drop_append_of_le_length hmore] at hlater ih
    have hafter : p.after (d :: s) =
        (p.after (d :: s.take (lexeme leader d (s ++ x)).more)).after
          (s.drop (lexeme leader d (s ++ x)).more) := by
      rw [← Position.after_append, List.cons_append, List.take_append_drop]
    obtain ⟨front, hfx, hfy⟩ := ih (by
      rw [Position.offset_after, List.length_cons, List.length_take, List.length_drop]
      omega) rfl hlater
    refine ⟨(lexeme leader d (s ++ x)).token p
      (p.after (d :: s.take (lexeme leader d (s ++ x)).more)) ++ front, ?_, ?_⟩
    · rw [scanFrom_lexeme hb, List.take_append_of_le_length hmore,
        List.drop_append_of_le_length hmore, hfx, hafter, List.append_assoc]
    · rw [List.cons_append, scanFrom_lexeme hb, heq, List.take_append_of_le_length hmore,
        List.drop_append_of_le_length hmore, hfy, hafter, List.append_assoc]

/-! ### Tokens that are displaced -/

/-- A token and what becomes of it when `home` characters in front of it give way to `away` others:
it stays on its line. -/
structure Moved (away home : Nat) (t u : Token) : Prop where
  kind : t.kind = u.kind
  text : t.text = u.text
  line : t.line = u.line
  start : t.start.offset + away = u.start.offset + home
  stop : t.stop + away = u.stop + home

theorem Moved.refl (t : Token) : Moved 0 0 t t := ⟨rfl, rfl, rfl, rfl, rfl⟩

/-- Tokens that touch one another still do. -/
theorem Moved.adjacent {away home : Nat} {t t' u u' : Token} (h : Moved away home t u)
    (h' : Moved away home t' u') : t.adjacent t' = u.adjacent u' := by
  have hstop := h.stop
  have hstart := h'.start
  unfold Token.adjacent
  rw [Bool.eq_iff_iff, beq_iff_eq, beq_iff_eq]
  omega

theorem line_after_congr {p q : Position} (h : p.line = q.line) (s : List Char) :
    (p.after s).line = (q.after s).line := by
  induction s generalizing p q with
  | nil => exact h
  | cons c s ih =>
    refine ih ?_
    unfold Position.next
    split
    · exact congrArg (· + 1) h
    · exact h

/-- The tokens of a text move with it along its line. -/
theorem scanFrom_moved (leader : List Char) {away home : Nat} {p q : Position}
    (hline : p.line = q.line) (hoffset : p.offset + away = q.offset + home) (s : List Char) :
    List.Forall₂ (Moved away home) (scanFrom leader p s) (scanFrom leader q s) := by
  induction p, s using scanFrom_induction leader generalizing q with
  | nil p =>
    rw [scanFrom_nil, scanFrom_nil]
    exact .cons ⟨rfl, rfl, hline, hoffset, hoffset⟩ .nil
  | blank p c s hb ih =>
    rw [scanFrom_blank hb, scanFrom_blank hb]
    have hp := offset_next p c
    have hq := offset_next q c
    exact ih (line_after_congr hline [c]) (by omega)
  | front p c s hb ih =>
    rw [scanFrom_lexeme hb, scanFrom_lexeme hb]
    have hafter : (p.after (c :: s.take (lexeme leader c s).more)).offset + away =
        (q.after (c :: s.take (lexeme leader c s).more)).offset + home := by
      rw [Position.offset_after, Position.offset_after]
      omega
    refine List.rel_append ?_ (ih (line_after_congr hline _) hafter)
    unfold Lexeme.token
    cases (lexeme leader c s).token? with
    | none => exact .nil
    | some found => exact .cons ⟨rfl, rfl, hline, hoffset, hafter⟩ .nil

/-! ### Words in a text -/

theorem not_opensWith_word {leader : List Char} (hl : Wordless leader) {c : Char}
    (hc : startsWord c = true) (s : List Char) :
    (!leader.isEmpty && opensWith leader (c :: s)) = false := by
  cases leader with
  | nil => rfl
  | cons l leader => rw [opensWith_word hl ⟨c, s, rfl, hc⟩, Bool.and_false]

theorem lexeme_of_word {leader : List Char} (hl : Wordless leader) {c : Char} {s rest : List Char}
    (hc : startsWord c = true) (hs : ∀ d ∈ s, continuesWord d = true) (hr : EndsWord rest) :
    lexeme leader c (s ++ rest) = ⟨some (.identifier, String.ofList (c :: s)), s.length⟩ := by
  rw [lexeme_word hc (not_opensWith_word hl hc _), word_append c hs hr]

theorem head?_drop_span (p : Char → Bool) (s : List Char) :
    ∀ c ∈ (s.drop (span p s)).head?, p c = false := by
  intro c hc
  have hdrop : s.drop (span p s) = s.dropWhile p := by
    rw [span]
    nth_rewrite 2 [← List.takeWhile_append_dropWhile (p := p) (l := s)]
    exact List.drop_left
  have hstop := List.head?_dropWhile_not p s
  rwa [← hdrop, hc] at hstop

theorem kind_number (c : Char) (s : List Char) (text : String) :
    (number c s).token? ≠ some (.identifier, text) := by
  unfold number
  split
  · simp [verbatim]
  · simp [verbatim]
  · dsimp only
    split
    · split <;> simp [verbatim]
    · simp [verbatim]

theorem kind_charLiteral (s : List Char) (text : String) :
    (charLiteral s).token? ≠ some (.identifier, text) := by
  unfold charLiteral
  dsimp only
  split <;> simp

theorem kind_stringLiteral (s : List Char) (text : String) :
    (stringLiteral s).token? ≠ some (.identifier, text) := by
  unfold stringLiteral
  split <;> simp

theorem kind_punctuation (c : Char) (s : List Char) (text : String) :
    (punctuation c s).token? ≠ some (.identifier, text) := by
  unfold punctuation
  dsimp only
  split <;> first | (split <;> simp [verbatim]) | simp [verbatim]

theorem word_of_identifier {c : Char} {s : List Char} {text : String}
    (h : (word c s).token? = some (.identifier, text)) :
    (word c s).more = span continuesWord s ∧ EndsWord (s.drop (span continuesWord s)) := by
  unfold word at h ⊢
  dsimp only at h ⊢
  split at h
  · cases h
  · next hcolon =>
    rw [if_neg hcolon]
    refine ⟨rfl, fun d hd => ⟨head?_drop_span _ s d hd, ?_⟩⟩
    rintro rfl
    exact hcolon hd

/-- A name is found where it begins like a word and takes all that goes on with it. -/
theorem word_of_lexeme {leader : List Char} {c : Char} {s : List Char} {text : String}
    (h : (lexeme leader c s).token? = some (.identifier, text)) :
    startsWord c = true ∧ (lexeme leader c s).more = span continuesWord s ∧
      EndsWord (s.drop (span continuesWord s)) := by
  have hbegins := shape_begins leader c s
  rw [lexeme_eq_read] at h ⊢
  generalize shape leader c s = found at h hbegins ⊢
  cases found with
  | comment => cases h
  | number => exact absurd h (kind_number c s text)
  | charLiteral => exact absurd h (kind_charLiteral s text)
  | stringLiteral => exact absurd h (kind_stringLiteral s text)
  | word => exact ⟨hbegins, word_of_identifier h⟩
  | punctuation => exact absurd h (kind_punctuation c s text)

/-- Words with a blank between any two of them. -/
def spacedWords (ws : List String) : List Char := [' '].intercalate (ws.map (·.toList))

/-- A token is one of the words on a line. -/
def WordAt (line : Nat) (t : Token) (w : String) : Prop :=
  t.kind = .identifier ∧ t.text = w ∧ t.line = line

section

variable {leader : List Char} (hl : Wordless leader) {rest : List Char}

include hl

theorem scanFrom_word {w : String} (hw : isName w.toList = true) (hr : EndsWord rest)
    (p : Position) : ∃ t, WordAt p.line t w ∧
      scanFrom leader p (w.toList ++ rest) = t :: scanFrom leader (p.after w.toList) rest := by
  rcases hs : w.toList with _ | ⟨c, s⟩
  · rw [hs] at hw
    cases hw
  rw [hs, isName, Bool.and_eq_true, List.all_eq_true] at hw
  obtain ⟨hc, hs'⟩ := hw
  have hstart : startsWord c = true := by rw [startsWord, hc, Bool.true_or]
  have hbounds := isAlpha_bounds hc
  have hlexeme := lexeme_of_word hl hstart (s := s)
    (fun d hd => by rw [continuesWord, hs' d hd, Bool.true_or]) hr
  refine ⟨⟨.identifier, w, p, (p.after (c :: s)).offset⟩, ⟨rfl, rfl, rfl⟩, ?_⟩
  rw [List.cons_append, scanFrom_lexeme (isBlank_of_bounds (by omega) (by omega)), hlexeme]
  dsimp only
  rw [List.take_left, List.drop_left, ← hs, String.ofList_toList]
  rfl

theorem scanFrom_words {ws : List String} (hws : ∀ w ∈ ws, isName w.toList = true)
    (hne : ws ≠ []) (hr : EndsWord rest) (p : Position) :
    ∃ us, List.Forall₂ (WordAt p.line) us ws ∧
      scanFrom leader p (spacedWords ws ++ rest) =
        us ++ scanFrom leader (p.after (spacedWords ws)) rest := by
  induction ws generalizing p with
  | nil => exact absurd rfl hne
  | cons w ws ih =>
    have hw := hws w List.mem_cons_self
    rcases ws with _ | ⟨v, ws⟩
    · obtain ⟨t, ht, hscan⟩ := scanFrom_word hl hw hr p
      have hone : spacedWords [w] = w.toList := by simp [spacedWords, List.intercalate]
      rw [hone]
      exact ⟨[t], .cons ht .nil, hscan⟩
    · have hmore : spacedWords (w :: v :: ws) = w.toList ++ ' ' :: spacedWords (v :: ws) := by
        rw [spacedWords, spacedWords, List.map_cons, intercalate_cons, List.map_cons,
          intercalate_cons, List.flatMap_cons, List.cons_append]
      have hblank : EndsWord (' ' :: (spacedWords (v :: ws) ++ rest)) := by
        rintro d hd
        cases hd
        decide
      have hline : ((p.after w.toList).next ' ').line = p.line := by
        rw [← line_after (lexes_name hw).ne_newline p]
        rfl
      obtain ⟨t, ht, hscan⟩ := scanFrom_word hl hw hblank p
      obtain ⟨us, hus, hrest⟩ := ih (fun u hu => hws u (List.mem_cons_of_mem _ hu))
        (List.cons_ne_nil v ws) ((p.after w.toList).next ' ')
      rw [hline] at hus
      refine ⟨t :: us, .cons ht hus, ?_⟩
      rw [hmore, List.append_assoc, List.cons_append, hscan, scanFrom_blank (by decide), hrest,
        Position.after_append]
      rfl

end

/-- A source in which words stand where a token stood. -/
def replaceWord (source : String) (t : Token) (ws : List String) : String :=
  String.ofList (source.toList.take t.start.offset ++ spacedWords ws ++ source.toList.drop t.stop)

theorem line_spacedWords {ws : List String} (hws : ∀ w ∈ ws, isName w.toList = true)
    (p : Position) : (p.after (spacedWords ws)).line = p.line := by
  refine line_after (fun c hc => ?_) p
  rcases ws with _ | ⟨w, ws⟩
  · cases hc
  rw [spacedWords, List.map_cons, intercalate_cons, List.flatMap_map] at hc
  obtain hc | hc := List.mem_append.mp hc
  · exact (lexes_name (hws w List.mem_cons_self)).ne_newline c hc
  · obtain ⟨v, hv, hc⟩ := List.mem_flatMap.mp hc
    obtain rfl | hc := List.mem_cons.mp hc
    · decide
    · exact (lexes_name (hws v (List.mem_cons_of_mem _ hv))).ne_newline c hc

theorem BeginsApart.append {x : List Char} (h : BeginsApart x) (rest : List Char) :
    BeginsApart (x ++ rest) := by
  obtain ⟨c, s, rfl, hc⟩ := h
  exact ⟨c, s ++ rest, rfl, hc⟩

theorem ne_nil_of_beginsApart {ws : List String} (h : BeginsApart (spacedWords ws)) : ws ≠ [] := by
  rintro rfl
  obtain ⟨_, _, h, -⟩ := h
  cases h

/-- A word of a text, between what stands in front of it and what stands behind it. -/
structure WordOf (leader source : List Char) (t : Token) (front word rest : List Char) :
    Prop where
  source : source = front ++ (word ++ rest)
  begins : BeginsWord (word ++ rest)
  scan : scanFrom leader (Position.after {} front) (word ++ rest) =
    t :: scanFrom leader ((Position.after {} front).after word) rest
  ends : EndsWord rest
  ne_newline : ∀ c ∈ word, c ≠ '\n'
  start : t.start = Position.after {} front
  stop : t.stop = front.length + word.length

theorem exists_wordOf {leader source : List Char} {t : Token} (ht : t ∈ scanFrom leader {} source)
    (hk : t.kind = .identifier) : ∃ front word rest, WordOf leader source t front word rest := by
  obtain ⟨s, c, r, rfl, hb, hfound⟩ := exists_lexeme_of_mem ht (by simp [hk])
  have hstart := start_of_mem_token hfound
  obtain ⟨⟨kind, text⟩, htoken, hteq⟩ := Option.map_eq_some_iff.mp (Option.mem_toList.mp hfound)
  have hkind : kind = .identifier := by
    rw [← hteq] at hk
    exact hk
  subst hkind
  obtain ⟨hc, hmore, hends⟩ := word_of_lexeme htoken
  have hle := span_le continuesWord r
  have hone : (lexeme leader c r).token (Position.after {} s)
      ((Position.after {} s).after (c :: r.take (lexeme leader c r).more)) = [t] := by
    rw [Lexeme.token, htoken]
    exact congrArg (fun u => [u]) hteq
  refine ⟨s, c :: r.take (span continuesWord r), r.drop (span continuesWord r), ?_, ?_, ?_, hends,
    ?_, hstart, ?_⟩
  · rw [List.cons_append, List.take_append_drop]
  · exact ⟨c, _, rfl, hc⟩
  · rw [List.cons_append, List.take_append_drop, scanFrom_lexeme hb, hone, hmore]
    rfl
  · have htake := List.prefix_iff_eq_take.mp (List.takeWhile_prefix (l := r) continuesWord)
    rintro d hd rfl
    obtain rfl | hd := List.mem_cons.mp hd
    · cases hc
    · rw [span, ← htake] at hd
      exact absurd (List.mem_takeWhile_imp hd) (by decide)
  · rw [← hteq, hmore]
    simp only [Position.offset_after, List.length_cons]
    exact congrArg (· + _) (Nat.zero_add _)

theorem WordOf.toList_replaceWord {source : String} {leader front word rest : List Char}
    {t : Token} (h : WordOf leader source.toList t front word rest) (ws : List String) :
    (replaceWord source t ws).toList = front ++ (spacedWords ws ++ rest) := by
  have hoffset : t.start.offset = front.length := by
    rw [h.start, Position.offset_after]
    exact Nat.zero_add _
  rw [replaceWord, String.toList_ofList, h.source, hoffset, h.stop, List.take_left,
    ← List.append_assoc front word, ← List.length_append, List.drop_left, List.append_assoc]

/-- Where words stand for a word, the tokens in front of it stay and those behind it move along
their lines. -/
theorem scan_replaceWord {source leader : String} (hl : Wordless leader.toList) {t : Token}
    (ht : t ∈ scan source leader) (hk : t.kind = .identifier) {ws : List String}
    (hws : ∀ w ∈ ws, isName w.toList = true) (hapart : BeginsApart (spacedWords ws)) :
    ∃ front rest us moved away home,
      scan source leader = front ++ t :: rest ∧
      scan (replaceWord source t ws) leader = front ++ us ++ moved ∧
      List.Forall₂ (WordAt t.line) us ws ∧ List.Forall₂ (Moved away home) rest moved := by
  obtain ⟨s, word, r, h⟩ := exists_wordOf ht hk
  have hoffset : t.start.offset = ({} : Position).offset + s.length := by
    rw [h.start, Position.offset_after]
  have hmem : t ∈ scanFrom leader.toList {} (s ++ (word ++ r)) := h.source ▸ ht
  obtain ⟨front, hold, hnew⟩ :=
    scanFrom_replaced hl h.begins (hapart.append r) hmem hoffset
  obtain ⟨us, hus, hwords⟩ :=
    scanFrom_words hl hws (ne_nil_of_beginsApart hapart) h.ends (Position.after {} s)
  have hmoved : List.Forall₂ (Moved (spacedWords ws).length word.length)
      (scanFrom leader.toList ((Position.after {} s).after word) r)
      (scanFrom leader.toList ((Position.after {} s).after (spacedWords ws)) r) := by
    refine scanFrom_moved leader.toList ?_ ?_ _
    · rw [line_after h.ne_newline, line_spacedWords hws]
    · simp only [Position.offset_after]
      omega
  have hline : (Position.after {} s).line = t.line := by rw [Token.line, h.start]
  refine ⟨front, _, us, _, _, _, ?_, ?_, hline ▸ hus, hmoved⟩
  · rw [scan, h.source, hold, h.scan]
  · rw [scan, h.toList_replaceWord, hnew, hwords, List.append_assoc]

end Minicomputer.Token
