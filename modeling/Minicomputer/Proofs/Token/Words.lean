import Mathlib
import Minicomputer.Token.Scan

/-!
# Scanning words

Text that is nothing but names and numbers, with blanks between them and a line break between lines.
It is scanned into one token a word, and the tokens tell the lines apart.
-/

set_option autoImplicit false

namespace Minicomputer

/-! ### Decimal numbers -/

namespace Text

theorem digitValue_of_isDigit {c : Char} (h : c.isDigit = true) : digitValue c = c.toNat - 48 := by
  rw [digitValue, if_pos h]

theorem numeral_eq_ofDigitChars {ds : List Char} (h : ∀ c ∈ ds, c.isDigit = true) (n : Nat) :
    ds.foldl (fun n c => n * 10 + digitValue c) n = Nat.ofDigitChars 10 ds n := by
  induction ds generalizing n with
  | nil => simp
  | cons c ds ih =>
    have hc := digitValue_of_isDigit (h c List.mem_cons_self)
    have hn : n * 10 + digitValue c = 10 * n + (c.toNat - '0'.toNat) := by
      rw [hc, Nat.mul_comm]
      rfl
    rw [List.foldl_cons, hn, Nat.ofDigitChars_cons]
    exact ih (fun d hd => h d (List.mem_cons_of_mem _ hd)) _

/-- Reading digits inverts writing them. -/
theorem numeral_toDigits (n : Nat) : numeral 10 (Nat.toDigits 10 n) = n := by
  have hd (c : Char) (hc : c ∈ Nat.toDigits 10 n) : c.isDigit = true :=
    Nat.isDigit_of_mem_toDigits (by decide) (by decide) hc
  rw [numeral, numeral_eq_ofDigitChars hd, Nat.ofDigitChars_ten_toDigits]

/-- The characters of a decimal number. -/
def decimal (z : Int) : List Char :=
  if z < 0 then '-' :: Nat.toDigits 10 z.natAbs else Nat.toDigits 10 z.natAbs

theorem toList_toString_int (z : Int) : (toString z).toList = decimal z := by
  cases z with
  | ofNat n =>
    have hn : ¬ Int.ofNat n < 0 := by simp
    rw [decimal, if_neg hn]
    exact Nat.toList_repr
  | negSucc n =>
    rw [decimal, if_pos (Int.negSucc_lt_zero n)]
    show ("-" ++ (n + 1).repr).toList = _
    rw [String.toList_append, Nat.toList_repr]
    rfl

theorem signedDecimal?_of_minus {ds : List Char} (hne : ds ≠ [])
    (h : ∀ c ∈ ds, c.isDigit = true) :
    signedDecimal? ('-' :: ds) = some (-(numeral 10 ds : Int)) := by
  have hall : ds.all Char.isDigit = true := List.all_eq_true.mpr h
  simp [signedDecimal?, hall, hne]

theorem signedDecimal?_of_digits {ds : List Char} (hne : ds ≠ [])
    (h : ∀ c ∈ ds, c.isDigit = true) : signedDecimal? ds = some (numeral 10 ds : Int) := by
  obtain ⟨c, s, rfl⟩ := List.exists_cons_of_ne_nil hne
  have hall : (c :: s).all Char.isDigit = true := List.all_eq_true.mpr h
  have hminus : c ≠ '-' := by
    rintro rfl
    exact absurd (h '-' List.mem_cons_self) (by decide)
  have hplus : c ≠ '+' := by
    rintro rfl
    exact absurd (h '+' List.mem_cons_self) (by decide)
  unfold signedDecimal?
  split
  next x negative digits heq =>
  have hsplit : (negative, digits) = (false, c :: s) := by
    rw [← heq]
    split
    · next r hs => exact absurd (List.cons.inj hs).1 hminus
    · next r hs => exact absurd (List.cons.inj hs).1 hplus
    · rfl
  cases hsplit
  simp [hall]

theorem signedDecimal?_decimal (z : Int) : signedDecimal? (decimal z) = some z := by
  have hdigits (c : Char) (hc : c ∈ Nat.toDigits 10 z.natAbs) : c.isDigit = true :=
    Nat.isDigit_of_mem_toDigits (by decide) (by decide) hc
  have hvalue := numeral_toDigits z.natAbs
  have hne : Nat.toDigits 10 z.natAbs ≠ [] := Nat.toDigits_ne_nil
  unfold decimal
  split
  · rw [signedDecimal?_of_minus hne hdigits, hvalue, Option.some.injEq]
    omega
  · rw [signedDecimal?_of_digits hne hdigits, hvalue, Option.some.injEq]
    omega

theorem int32?_toString {z : Int} (low : -2147483648 ≤ z) (high : z ≤ 2147483647) :
    int32? (toString z).toList = some z := by
  rw [int32?, toList_toString_int, signedDecimal?_decimal]
  simp [low, high]

end Text

namespace Token

/-! ### Single words -/

/-- What a token is, apart from where it stands. -/
structure Piece where
  kind : TokenKind
  text : String

/-- What may follow a word. -/
def Ends (rest : List Char) : Prop := ∀ c ∈ rest.head?, c = ' ' ∨ c = '\n'

/-- The text of a piece in front of a blank or the end of its line is read as this piece. -/
structure Lexes (w : Piece) : Prop where
  kind_ne : w.kind ≠ .eof
  ne_newline : ∀ c ∈ w.text.toList, c ≠ '\n'
  front : ∃ c s, w.text.toList = c :: s ∧ Text.isBlank c = false ∧ ∀ rest, Ends rest →
    lexeme ['#'] c (s ++ rest) = ⟨some (w.kind, w.text), s.length⟩

theorem takeWhile_of_head {p : Char → Bool} {rest : List Char}
    (hr : ∀ c ∈ rest.head?, p c = false) : rest.takeWhile p = [] := by
  cases rest with
  | nil => rfl
  | cons c rest => simp [hr c rfl]

theorem span_append {p : Char → Bool} {w rest : List Char} (hw : ∀ c ∈ w, p c = true)
    (hr : ∀ c ∈ rest.head?, p c = false) : span p (w ++ rest) = w.length := by
  rw [span, List.takeWhile_append_of_pos hw, takeWhile_of_head hr, List.append_nil]

theorem verbatim_append (kind : TokenKind) (c : Char) (s rest : List Char) :
    verbatim kind c (s ++ rest) s.length = ⟨some (kind, String.ofList (c :: s)), s.length⟩ := by
  rw [verbatim, List.take_left]

theorem not_opensWith {c : Char} (h : c ≠ '#') (s : List Char) :
    (!List.isEmpty ['#'] && opensWith ['#'] (c :: s)) = false := by
  simp [opensWith, h.symm]

section

variable {c : Char}

theorem isDigit_bounds (h : c.isDigit = true) : 48 ≤ c.toNat ∧ c.toNat ≤ 57 := by
  simpa [Char.isDigit, UInt32.le_iff_toNat_le] using h

theorem isAlpha_bounds (h : c.isAlpha = true) :
    (65 ≤ c.toNat ∧ c.toNat ≤ 90) ∨ (97 ≤ c.toNat ∧ c.toNat ≤ 122) := by
  simpa [Char.isAlpha, Char.isUpper, Char.isLower, UInt32.le_iff_toNat_le] using h

theorem ne_of_toNat {d : Char} (h : c.toNat ≠ d.toNat) : c ≠ d := by
  rintro rfl
  exact h rfl

theorem isBlank_of_bounds (low : 33 ≤ c.toNat) (high : c.toNat < 127) :
    Text.isBlank c = false := by
  simp [Text.isBlank, Text.blankRanges]
  omega

end

theorem startsWord_bounds {c : Char} (h : startsWord c = true) :
    (65 ≤ c.toNat ∧ c.toNat ≤ 90) ∨ c.toNat = 95 ∨ (97 ≤ c.toNat ∧ c.toNat ≤ 122) := by
  rw [startsWord, Bool.or_eq_true, beq_iff_eq] at h
  obtain h | rfl := h
  · have := isAlpha_bounds h
    omega
  · exact .inr (.inl rfl)

theorem not_isDigit_of_startsWord {c : Char} (h : startsWord c = true) : c.isDigit = false := by
  have := startsWord_bounds h
  by_contra hd
  have := isDigit_bounds (by simpa using hd)
  omega

/-- What may follow a word that is no label. -/
def EndsWord (rest : List Char) : Prop := ∀ c ∈ rest.head?, continuesWord c = false ∧ c ≠ ':'

theorem Ends.endsWord {rest : List Char} (h : Ends rest) : EndsWord rest := by
  intro c hc
  obtain rfl | rfl := h c hc <;> decide

/-- What begins like a word is a word, unless a comment opens there. -/
theorem lexeme_word {leader : List Char} {c : Char} {s : List Char} (hc : startsWord c = true)
    (ho : (!leader.isEmpty && opensWith leader (c :: s)) = false) :
    lexeme leader c s = word c s := by
  have hne {d : Char} (hd : startsWord d = false) : c ≠ d := by
    rintro rfl
    rw [hc] at hd
    cases hd
  have hdash : (c == '-') = false := beq_false_of_ne (hne (by decide))
  unfold lexeme
  rw [ho, not_isDigit_of_startsWord hc, hdash, Bool.false_and, Bool.false_or,
    if_neg Bool.false_ne_true, if_neg Bool.false_ne_true, if_neg (hne (by decide)),
    if_neg (hne (by decide)), if_pos hc]

theorem word_append (c : Char) {s rest : List Char} (hs : ∀ d ∈ s, continuesWord d = true)
    (hr : EndsWord rest) :
    word c (s ++ rest) = ⟨some (.identifier, String.ofList (c :: s)), s.length⟩ := by
  have hspan : span continuesWord (s ++ rest) = s.length := span_append hs fun d hd => (hr d hd).1
  have hcolon : rest.head? ≠ some ':' := fun h => (hr ':' h).2 rfl
  rw [word, hspan, List.drop_left, List.take_left, if_neg hcolon]

/-- A letter with letters and digits behind it. -/
def isName : List Char → Bool
  | c :: s => c.isAlpha && s.all Char.isAlphanum
  | [] => false

theorem lexes_name {text : String} (h : isName text.toList = true) :
    Lexes ⟨.identifier, text⟩ := by
  rcases ht : text.toList with _ | ⟨c, s⟩
  · rw [ht] at h
    cases h
  rw [ht, isName, Bool.and_eq_true, List.all_eq_true] at h
  obtain ⟨hc, hs⟩ := h
  have hb := isAlpha_bounds hc
  have hword : ∀ d ∈ s, continuesWord d = true := fun d hd => by
    rw [continuesWord, hs d hd, Bool.true_or]
  refine ⟨by simp, ?_, c, s, ht, isBlank_of_bounds (by omega) (by omega), ?_⟩
  · intro d hd
    rw [ht] at hd
    rintro rfl
    obtain rfl | hd := List.mem_cons.mp hd
    · exact absurd hc (by decide)
    · exact absurd (hs _ hd) (by decide)
  · intro rest hr
    have hstart : startsWord c = true := by rw [startsWord, hc, Bool.true_or]
    have hmark : c ≠ '#' := ne_of_toNat (by simp; omega)
    rw [lexeme_word hstart (not_opensWith hmark _), word_append c hword hr.endsWord, ← ht,
      String.ofList_toList]

/-- A number in digits, from its first digit or its sign. -/
theorem number_append {c : Char} {ds rest : List Char} (hd : ∀ d ∈ ds, d.isDigit = true)
    (hr : Ends rest) :
    number c (ds ++ rest) = ⟨some (.integer, String.ofList (c :: ds)), ds.length⟩ := by
  have hhead (d : Char) (e : (ds ++ rest).head? = some d) :
      d.isDigit = true ∨ d = ' ' ∨ d = '\n' := by
    cases ds with
    | nil => exact .inr (hr d e)
    | cons a as =>
      cases e
      exact .inl (hd d List.mem_cons_self)
  have hspan : span Char.isDigit (ds ++ rest) = ds.length := by
    refine span_append hd fun d e => ?_
    obtain rfl | rfl := hr d e <;> decide
  unfold number
  split
  · next r h =>
    obtain e | e | e := hhead 'x' (by rw [h]; rfl)
    · exact absurd e (by decide)
    · cases e
    · cases e
  · next r h =>
    obtain e | e | e := hhead 'b' (by rw [h]; rfl)
    · exact absurd e (by decide)
    · cases e
    · cases e
  · simp only [hspan, List.drop_left]
    split
    · next r =>
      obtain e | e := hr '.' rfl <;> cases e
    · exact verbatim_append ..

/-- What is read as a number is one in front of a blank or the end of its line. -/
theorem lexes_of_number {kind : TokenKind} {text : String} {c : Char} {s : List Char}
    (hkind : kind ≠ .eof) (ht : text.toList = c :: s)
    (hc : c.isDigit = true ∨ c = '-' ∧ s.head?.any Char.isDigit = true) (hs : ∀ d ∈ s, d ≠ '\n')
    (hn : ∀ rest, Ends rest → number c (s ++ rest) = ⟨some (kind, text), s.length⟩) :
    Lexes ⟨kind, text⟩ := by
  have hbounds : 33 ≤ c.toNat ∧ c.toNat < 127 ∧ c ≠ '#' := by
    obtain hc | ⟨rfl, -⟩ := hc
    · have hb := isDigit_bounds hc
      exact ⟨by omega, by omega, ne_of_toNat (by simp; omega)⟩
    · decide
  obtain ⟨hlow, hhigh, hmark⟩ := hbounds
  have hblank : Text.isBlank c = false := isBlank_of_bounds hlow hhigh
  refine ⟨hkind, ?_, c, s, ht, hblank, fun rest hr => ?_⟩
  · rw [ht]
    refine List.forall_mem_cons.mpr ⟨?_, hs⟩
    rintro rfl
    exact absurd hblank (by decide)
  · have hnumber : (c.isDigit || (c == '-' && (s ++ rest).head?.any Char.isDigit)) = true := by
      obtain hc | ⟨rfl, hd⟩ := hc
      · rw [hc, Bool.true_or]
      · cases s with
        | nil => cases hd
        | cons d s =>
          have hd : d.isDigit = true := hd
          simp [hd]
    rw [lexeme, not_opensWith hmark, hnumber]
    exact hn rest hr

/-- Digits, behind a minus or not. -/
theorem lexes_digits {text : String} {c : Char} {ds : List Char} (ht : text.toList = c :: ds)
    (hc : c.isDigit = true ∨ c = '-' ∧ ds ≠ []) (hd : ∀ d ∈ ds, d.isDigit = true) :
    Lexes ⟨.integer, text⟩ := by
  have hhead (hne : ds ≠ []) : ds.head?.any Char.isDigit = true := by
    obtain ⟨d, s, rfl⟩ := List.exists_cons_of_ne_nil hne
    exact hd d List.mem_cons_self
  refine lexes_of_number (by simp) ht (hc.imp_right (And.imp_right hhead)) ?_ fun rest hr => ?_
  · rintro d hm rfl
    exact absurd (hd _ hm) (by decide)
  · rw [number_append hd hr, ← ht, String.ofList_toList]

theorem lexes_number (z : Int) : Lexes ⟨.integer, toString z⟩ := by
  have hdigits (c : Char) (hc : c ∈ Nat.toDigits 10 z.natAbs) : c.isDigit = true :=
    Nat.isDigit_of_mem_toDigits (by decide) (by decide) hc
  have hne : Nat.toDigits 10 z.natAbs ≠ [] := Nat.toDigits_ne_nil
  have ht := Text.toList_toString_int z
  rw [Text.decimal] at ht
  split at ht
  · exact lexes_digits ht (.inr ⟨rfl, hne⟩) hdigits
  · obtain ⟨d, ds, hds⟩ := List.exists_cons_of_ne_nil hne
    rw [hds] at ht hdigits
    exact lexes_digits ht (.inl (hdigits d List.mem_cons_self)) fun c hc =>
      hdigits c (List.mem_cons_of_mem _ hc)

theorem isHexDigit_of_mem_toDigits {n : Nat} {c : Char} (h : c ∈ Nat.toDigits 16 n) :
    isHexDigit c = true := by
  have hall : ∀ d, d < 16 → isHexDigit (Nat.digitChar d) = true := by decide
  induction n using Nat.strongRecOn with
  | ind n ih =>
    rw [Nat.toDigits_eq_if (by decide)] at h
    split at h
    · next hn =>
      obtain rfl := List.mem_singleton.mp h
      exact hall n hn
    · next hn =>
      obtain h | h := List.mem_append.mp h
      · exact ih (n / 16) (by omega) h
      · obtain rfl := List.mem_singleton.mp h
        exact hall _ (Nat.mod_lt _ (by decide))

/-- Text as it stands behind the mark of a base, where it goes on as long as its digits do. -/
theorem verbatim_marked {p : Char → Bool} (hblank : p ' ' = false) (hbreak : p '\n' = false)
    {kind : TokenKind} {text : String} {mark : Char} {ds rest : List Char}
    (ht : text.toList = '0' :: mark :: ds) (hd : ∀ d ∈ ds, p d = true) (hr : Ends rest) :
    verbatim kind '0' (mark :: ds ++ rest) (1 + span p (ds ++ rest)) =
      ⟨some (kind, text), (mark :: ds).length⟩ := by
  have hspan : span p (ds ++ rest) = ds.length := by
    refine span_append hd fun d hmem => ?_
    obtain rfl | rfl := hr d hmem
    · exact hblank
    · exact hbreak
  have htext := verbatim_append kind '0' (mark :: ds) rest
  rw [← ht, String.ofList_toList] at htext
  rw [hspan, Nat.add_comm]
  exact htext

theorem lexes_hex {text : String} {ds : List Char} (ht : text.toList = '0' :: 'x' :: ds)
    (hd : ∀ d ∈ ds, isHexDigit d = true) : Lexes ⟨.hex, text⟩ := by
  refine lexes_of_number (by simp) ht (.inl (by decide)) ?_ fun rest hr => ?_
  · refine List.forall_mem_cons.mpr ⟨by decide, ?_⟩
    rintro d hm rfl
    exact absurd (hd _ hm) (by decide)
  · exact verbatim_marked (by decide) (by decide) ht hd hr

theorem lexes_binary {text : String} {ds : List Char} (ht : text.toList = '0' :: 'b' :: ds)
    (hd : ∀ d ∈ ds, isBinaryDigit d = true) : Lexes ⟨.binary, text⟩ := by
  refine lexes_of_number (by simp) ht (.inl (by decide)) ?_ fun rest hr => ?_
  · refine List.forall_mem_cons.mpr ⟨by decide, ?_⟩
    rintro d hm rfl
    exact absurd (hd _ hm) (by decide)
  · exact verbatim_marked (by decide) (by decide) ht hd hr

/-! ### Lines of words -/

/-- A token that is a given piece on a given line. -/
def Spells (line : Nat) (t : Token) (w : Piece) : Prop :=
  t.kind = w.kind ∧ t.text = w.text ∧ t.line = line

/-- Lines of tokens that are given pieces, the first of them with a given number. -/
inductive SpellsLines : Nat → List (List Token) → List (List Piece) → Prop where
  | nil (n : Nat) : SpellsLines n [] []
  | cons {n : Nat} {ts : List Token} {tss : List (List Token)} {ws : List Piece}
      {wss : List (List Piece)} (first : List.Forall₂ (Spells n) ts ws)
      (rest : SpellsLines (n + 1) tss wss) : SpellsLines n (ts :: tss) (ws :: wss)

/-- Pieces with blanks between them. -/
def spaced (ws : List Piece) : List Char := [' '].intercalate (ws.map (·.text.toList))

theorem intercalate_cons {α : Type} (c : α) (xs : List α) (yss : List (List α)) :
    [c].intercalate (xs :: yss) = xs ++ yss.flatMap (c :: ·) := by
  induction yss generalizing xs with
  | nil => simp
  | cons ys yss ih => simp [ih]

theorem spaced_cons (w : Piece) (ws : List Piece) :
    spaced (w :: ws) = w.text.toList ++ ws.flatMap fun v => ' ' :: v.text.toList := by
  rw [spaced, List.map_cons, intercalate_cons, List.flatMap_map]

/-- Lines of pieces with line breaks between them. -/
def broken (wss : List (List Piece)) : List Char := ['\n'].intercalate (wss.map spaced)

theorem line_after {s : List Char} (h : ∀ c ∈ s, c ≠ '\n') (p : Position) :
    (p.after s).line = p.line := by
  induction s generalizing p with
  | nil => rfl
  | cons c s ih =>
    have hn : (p.next c).line = p.line := by rw [Position.next, if_neg (h c List.mem_cons_self)]
    show ((p.next c).after s).line = _
    rw [ih (fun d hd => h d (List.mem_cons_of_mem _ hd)), hn]

theorem scanFrom_blank {leader : List Char} {c : Char} (h : Text.isBlank c = true)
    (p : Position) (s : List Char) : scanFrom leader p (c :: s) = scanFrom leader (p.next c) s := by
  rw [scanFrom, if_pos h]

theorem scanFrom_nil (leader : List Char) (p : Position) :
    scanFrom leader p [] = [⟨.eof, "", p, p.offset⟩] := by
  rw [scanFrom]

theorem scanFrom_piece {w : Piece} (h : Lexes w) (rest : List Char) (hr : Ends rest)
    (p : Position) : ∃ t q, Spells p.line t w ∧ q.line = p.line ∧
      scanFrom ['#'] p (w.text.toList ++ rest) = t :: scanFrom ['#'] q rest := by
  obtain ⟨c, s, ht, hb, hf⟩ := h.front
  refine ⟨⟨w.kind, w.text, p, (p.after w.text.toList).offset⟩, p.after w.text.toList,
    ⟨rfl, rfl, rfl⟩, line_after h.ne_newline p, ?_⟩
  rw [ht, List.cons_append, scanFrom, if_neg (by simp [hb])]
  simp only [hf rest hr, List.take_left, List.drop_left]

theorem scanFrom_spaced {ws : List Piece} (h : ∀ w ∈ ws, Lexes w) (rest : List Char)
    (hr : Ends rest) (p : Position) : ∃ ts q, List.Forall₂ (Spells p.line) ts ws ∧
      q.line = p.line ∧ scanFrom ['#'] p (spaced ws ++ rest) = ts ++ scanFrom ['#'] q rest := by
  induction ws generalizing p with
  | nil => exact ⟨[], p, .nil, rfl, rfl⟩
  | cons w ws ih =>
    have hw := h w List.mem_cons_self
    -- The last piece stands in front of the end of the line, any other in front of a blank.
    cases ws with
    | nil =>
      obtain ⟨t, q, ht, hq, hs⟩ := scanFrom_piece hw rest hr p
      exact ⟨[t], q, .cons ht .nil, hq, by simpa [spaced] using hs⟩
    | cons v ws =>
      obtain ⟨t, q, ht, hq, hs⟩ := scanFrom_piece hw (' ' :: (spaced (v :: ws) ++ rest))
        (by simp [Ends]) p
      obtain ⟨ts, u, hts, hu, hss⟩ := ih (fun x hx => h x (List.mem_cons_of_mem _ hx)) (q.next ' ')
      have hn : (q.next ' ').line = p.line := hq
      rw [hn] at hts hu
      refine ⟨t :: ts, u, .cons ht hts, hu, ?_⟩
      have he : spaced (w :: v :: ws) ++ rest =
          w.text.toList ++ ' ' :: (spaced (v :: ws) ++ rest) := by
        simp [spaced]
      rw [he, hs, scanFrom_blank (by decide), hss, List.cons_append]

/-- Lines of words are scanned into a token for each word, on its line, and the end mark. -/
theorem scanFrom_broken {wss : List (List Piece)} (h : ∀ ws ∈ wss, ∀ w ∈ ws, Lexes w)
    (p : Position) : ∃ tss stop, SpellsLines p.line tss wss ∧ stop.kind = .eof ∧
      scanFrom ['#'] p (broken wss) = tss.flatten ++ [stop] := by
  induction wss generalizing p with
  | nil => exact ⟨[], _, .nil _, rfl, scanFrom_nil _ p⟩
  | cons ws wss ih =>
    have hws := h ws List.mem_cons_self
    cases wss with
    | nil =>
      obtain ⟨ts, q, hts, -, hs⟩ := scanFrom_spaced hws [] (by simp [Ends]) p
      refine ⟨[ts], ⟨.eof, "", q, q.offset⟩, .cons hts (.nil _), rfl, ?_⟩
      rw [scanFrom_nil] at hs
      simpa [broken] using hs
    | cons vs wss =>
      obtain ⟨ts, q, hts, hq, hs⟩ := scanFrom_spaced hws ('\n' :: broken (vs :: wss))
        (by simp [Ends]) p
      obtain ⟨tss, stop, htss, hstop, hss⟩ :=
        ih (fun x hx => h x (List.mem_cons_of_mem _ hx)) (q.next '\n')
      have hn : (q.next '\n').line = p.line + 1 := congrArg (· + 1) hq
      rw [hn] at htss
      refine ⟨ts :: tss, stop, .cons hts htss, hstop, ?_⟩
      have he : broken (ws :: vs :: wss) = spaced ws ++ '\n' :: broken (vs :: wss) := by
        simp [broken]
      rw [he, hs, scanFrom_blank (by decide), hss, List.flatten_cons, List.append_assoc]

end Token

end Minicomputer
