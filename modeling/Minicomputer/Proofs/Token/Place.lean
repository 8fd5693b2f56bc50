import Minicomputer.Proofs.Token.Lexeme

/-!
# The places of tokens

The scanner goes through a source from left to right: over blanks one by one, over comments to the
end of their lines, and over the characters that a token takes. Its path is a relation here, with
one rule for each of these moves, and what holds of the tokens of a source follows by induction on
the path: where they stand, what they say, and what lies between them.
-/

set_option autoImplicit false

namespace Minicomputer.Token

/-! ### Places -/

/-- What stands in a text behind its last line feed. -/
def lastLine (s : List Char) : List Char := (s.reverse.takeWhile (· != '\n')).reverse

theorem length_lastLine_concat (s : List Char) (c : Char) :
    (lastLine (s ++ [c])).length = if c = '\n' then 0 else (lastLine s).length + 1 := by
  unfold lastLine
  rw [List.length_reverse, List.length_reverse, List.reverse_append, List.reverse_singleton,
    List.singleton_append, List.takeWhile_cons]
  by_cases h : c = '\n' <;> simp [h]

/-- The place at an offset of a source. -/
def placeAt (source : List Char) (offset : Nat) : Position :=
  ⟨offset, 1 + (source.take offset).count '\n', (lastLine (source.take offset)).length⟩

theorem placeAt_next {source : List Char} {i : Nat} {c : Char} (h : source[i]? = some c) :
    (placeAt source i).next c = placeAt source (i + 1) := by
  have ht : source.take (i + 1) = source.take i ++ [c] := by
    rw [List.take_add_one, h]
    rfl
  unfold placeAt Position.next
  rw [ht, length_lastLine_concat, List.count_append, List.count_singleton]
  by_cases hc : c = '\n' <;> simp [hc, Nat.add_assoc]

theorem placeAt_after {source s : List Char} {i : Nat} (h : s <+: source.drop i) :
    (placeAt source i).after s = placeAt source (i + s.length) := by
  induction s generalizing i with
  | nil => rfl
  | cons c s ih =>
    obtain ⟨rest, hr⟩ := h
    have hc : source[i]? = some c := by
      rw [← List.head?_drop, ← hr]
      rfl
    have hs : s <+: source.drop (i + 1) := by
      refine ⟨rest, ?_⟩
      rw [← List.tail_drop, ← hr]
      rfl
    show ((placeAt source i).next c).after s = _
    rw [placeAt_next hc, ih hs, List.length_cons]
    congr 1
    omega

/-- One place is in front of another: on a line above, or further left on the same line. -/
def Before (p q : Position) : Prop := p.line < q.line ∨ p.line = q.line ∧ p.column < q.column

theorem Before.trans {p q r : Position} (h : Before p q) (h' : Before q r) : Before p r := by
  unfold Before at *
  omega

theorem before_next (p : Position) (c : Char) : Before p (p.next c) := by
  unfold Before Position.next
  split
  · exact .inl (Nat.lt_succ_self _)
  · exact .inr ⟨rfl, Nat.lt_succ_self _⟩

theorem placeAt_before {source : List Char} {i j : Nat} (h : i < j) (hj : j ≤ source.length) :
    Before (placeAt source i) (placeAt source j) := by
  have step {k : Nat} (hk : k < source.length) :
      Before (placeAt source k) (placeAt source (k + 1)) := by
    rw [← placeAt_next (List.getElem?_eq_getElem hk)]
    exact before_next _ _
  induction j with
  | zero => cases h
  | succ j ih =>
    obtain rfl | hlt := Nat.eq_or_lt_of_le (Nat.le_of_lt_succ h)
    · exact step hj
    · exact (ih hlt (Nat.le_of_succ_le hj)).trans (step hj)

/-! ### The path of the scanner -/

def Covers (t : Token) (i : Nat) : Prop := t.start.offset ≤ i ∧ i < t.stop

/-- A token in its place, which is not the end mark. -/
structure Stands (source : List Char) (t : Token) : Prop where
  place : t.start = placeAt source t.start.offset
  nonempty : t.start.offset < t.stop
  inside : t.stop ≤ source.length
  kind : t.kind ≠ .eof
  verbatim : t.kind.isVerbatim = true → t.text.toList = source.extract t.start.offset t.stop
  label : t.kind = .label → t.text.toList ++ [':'] = source.extract t.start.offset t.stop

def endMark (source : List Char) : Token :=
  ⟨.eof, "", placeAt source source.length, source.length⟩

/-- The way of the scanner from an offset to the end, with the tokens that it finds. -/
inductive Path (leader source : List Char) : Nat → List Token → Prop where
  | finish : Path leader source source.length [endMark source]
  | blank {i : Nat} {c : Char} {ts : List Token} (here : source[i]? = some c)
      (blank : Text.isBlank c = true) (rest : Path leader source (i + 1) ts) :
      Path leader source i ts
  | comment {i j : Nat} {ts : List Token} (opens : Opens leader (source.drop i)) (ahead : i < j)
      (line : ∀ k c, i ≤ k → k < j → source[k]? = some c → c ≠ '\n')
      (rest : Path leader source j ts) : Path leader source i ts
  | token {t : Token} {ts : List Token} (stands : Stands source t)
      (rest : Path leader source t.stop ts) : Path leader source t.start.offset (t :: ts)

/-- What a span takes satisfies its predicate. -/
theorem of_lt_span {p : Char → Bool} {s : List Char} {n : Nat} {d : Char} (h : n < span p s)
    (hd : s[n]? = some d) : p d = true := by
  have hw : (s.takeWhile p)[n]? = some d := by
    obtain ⟨rest, hr⟩ := List.takeWhile_prefix (l := s) p
    rw [← hd, ← hr, List.getElem?_append_left h]
    rw [hr]
  exact List.mem_takeWhile_imp (List.mem_of_getElem? hw)

theorem ne_newline_of_not_isBlank {c : Char} (h : ¬ Text.isBlank c = true) : c ≠ '\n' := by
  rintro rfl
  exact h (by decide)

section

variable {source s : List Char} {i : Nat} {c : Char} (hs : source.drop i = c :: s)

include hs

theorem getElem?_of_drop : source[i]? = some c := by
  rw [← List.head?_drop, hs]
  rfl

theorem drop_of_drop (n : Nat) : source.drop (i + 1 + n) = s.drop n := by
  rw [Nat.add_assoc, ← List.drop_drop, hs, Nat.add_comm 1 n]
  rfl

theorem placeAt_after_take {n : Nat} (hn : n ≤ s.length) :
    (placeAt source i).after (c :: s.take n) = placeAt source (i + 1 + n) := by
  have hp : c :: s.take n <+: source.drop i := by
    rw [hs]
    exact List.cons_prefix_cons.mpr ⟨rfl, List.take_prefix n s⟩
  rw [placeAt_after hp, List.length_cons, List.length_take_of_le hn]
  congr 1
  omega

theorem extract_of_drop (n : Nat) : source.extract i (i + 1 + n) = c :: s.take n := by
  have hl : i + 1 + n - i = n + 1 := by omega
  rw [List.extract_eq_take_drop, hs, hl]
  rfl

theorem length_of_drop : source.length = i + 1 + s.length := by
  have h := congrArg List.length hs
  rw [List.length_drop, List.length_cons] at h
  omega

/-- A comment ends in front of the next line feed. -/
theorem ne_newline_of_span (hc : c ≠ '\n') {k : Nat} {d : Char} (hi : i ≤ k)
    (hk : k < i + 1 + span (· != '\n') s) (hd : source[k]? = some d) : d ≠ '\n' := by
  by_cases he : k = i
  · subst he
    rw [getElem?_of_drop hs] at hd
    cases hd
    exact hc
  · obtain ⟨n, rfl⟩ : ∃ n, k = i + 1 + n := ⟨k - (i + 1), by omega⟩
    have hn : n < span (· != '\n') s := by omega
    have hd : s[n]? = some d := by
      rwa [← List.head?_drop, drop_of_drop hs, List.head?_drop] at hd
    simpa using of_lt_span hn hd

theorem stands_of_sound {l : Lexeme} (hl : l.Sound c s) {kind : TokenKind} {text : String}
    (ht : l.token? = some (kind, text)) :
    Stands source ⟨kind, text, placeAt source i, i + 1 + l.more⟩ where
  place := rfl
  nonempty := by
    show i < i + 1 + l.more
    omega
  inside := by
    show i + 1 + l.more ≤ source.length
    have hm := hl.inside
    rw [length_of_drop hs]
    omega
  kind := hl.kind kind text ht
  verbatim hv := (hl.verbatim kind text ht hv).trans (extract_of_drop hs l.more).symm
  label hk := by
    cases hk
    exact (hl.label text ht).trans (extract_of_drop hs l.more).symm

end

/-- The scanner takes such a path. -/
theorem path_scanFrom (leader source : List Char) {p : Position} {s : List Char} {i : Nat}
    (hi : i ≤ source.length) (hs : source.drop i = s) (hp : p = placeAt source i) :
    Path leader source i (scanFrom leader p s) := by
  fun_induction scanFrom leader p s generalizing i with
  | case1 p =>
    have hl : i = source.length := by
      have := List.drop_eq_nil_iff.mp hs
      omega
    subst hp hl
    exact .finish
  | case2 p c s hb ih =>
    have hl := length_of_drop hs
    have hc := getElem?_of_drop hs
    refine .blank hc hb (ih (by omega) (drop_of_drop hs 0) ?_)
    rw [hp, placeAt_next hc]
  | case3 p c s hb front q ht =>
    rename_i ih
    have ho : Opens leader (c :: s) := by
      by_contra hn
      have := (sound_lexeme hn).token
      rw [show (lexeme leader c s).token? = none from ht] at this
      cases this
    have hm : front.more = span (· != '\n') s := congrArg Lexeme.more (lexeme_of_opens ho)
    have hle : front.more ≤ s.length := hm ▸ span_le _ s
    have hl := length_of_drop hs
    have hq : q = placeAt source (i + 1 + front.more) := by
      rw [← placeAt_after_take hs hle, ← hp]
    refine .comment (hs ▸ ho) (j := i + 1 + front.more) (by omega) ?_
      (ih (by omega) (drop_of_drop hs _) hq)
    intro k d hik hkj hd
    rw [hm] at hkj
    exact ne_newline_of_span hs (ne_newline_of_not_isBlank hb) hik hkj hd
  | case4 p c s hb front q kind text ht =>
    rename_i ih
    have ho : ¬ Opens leader (c :: s) := by
      intro ho
      have := congrArg Lexeme.token? (lexeme_of_opens ho)
      rw [show (lexeme leader c s).token? = some (kind, text) from ht] at this
      cases this
    have hsound : front.Sound c s := sound_lexeme ho
    have hle := hsound.inside
    have hl := length_of_drop hs
    have hq : q = placeAt source (i + 1 + front.more) := by
      rw [← placeAt_after_take hs hle, ← hp]
    have hrest := ih (by omega) (drop_of_drop hs _) hq
    rw [hq, hp]
    exact .token (stands_of_sound hs hsound ht) (hq ▸ hrest)

/-! ### What a path says of its tokens -/

/-- A comment opens at an offset, outside of all tokens, and its line goes on to another one. -/
structure CommentSpan (leader source : List Char) (ts : List Token) (p k : Nat) : Prop where
  le : p ≤ k
  opens : Opens leader (source.drop p)
  line : ∀ q c, p ≤ q → q ≤ k → source[q]? = some c → c ≠ '\n'
  free : ∀ t ∈ ts, ∀ q, p ≤ q → q ≤ k → ¬ t.Covers q

def InComment (leader source : List Char) (ts : List Token) (k : Nat) : Prop :=
  ∃ p, CommentSpan leader source ts p k

namespace Path

variable {leader source : List Char} {i : Nat} {ts : List Token}

theorem le_start (h : Path leader source i ts) {t : Token} (ht : t ∈ ts) : i ≤ t.start.offset := by
  induction h with
  | finish =>
    obtain rfl := List.mem_singleton.mp ht
    exact Nat.le_refl _
  | blank _ _ _ ih =>
    have := ih ht
    omega
  | comment _ _ _ _ ih =>
    have := ih ht
    omega
  | token stands _ ih =>
    have hs := stands.nonempty
    cases ht with
    | head => exact Nat.le_refl _
    | tail _ ht =>
      have := ih ht
      omega

theorem exists_body (h : Path leader source i ts) :
    ∃ body, ts = body ++ [endMark source] ∧ ∀ t ∈ body, Stands source t := by
  induction h with
  | finish => exact ⟨[], rfl, nofun⟩
  | blank _ _ _ ih => exact ih
  | comment _ _ _ _ ih => exact ih
  | @token t _ stands _ ih =>
    obtain ⟨body, rfl, hb⟩ := ih
    exact ⟨t :: body, rfl, List.forall_mem_cons.mpr ⟨stands, hb⟩⟩

theorem pairwise (h : Path leader source i ts) :
    ts.Pairwise fun t u => t.stop ≤ u.start.offset := by
  induction h with
  | finish => exact List.pairwise_singleton _ _
  | blank _ _ _ ih => exact ih
  | comment _ _ _ _ ih => exact ih
  | token _ rest ih => exact List.pairwise_cons.mpr ⟨fun _ hu => rest.le_start hu, ih⟩

theorem start_of_mem (h : Path leader source i ts) {t : Token} (ht : t ∈ ts) :
    t.start = placeAt source t.start.offset ∧ t.start.offset ≤ source.length := by
  obtain ⟨body, rfl, hb⟩ := h.exists_body
  obtain ht | ht := List.mem_append.mp ht
  · have hs := hb t ht
    exact ⟨hs.place, Nat.le_of_lt (Nat.lt_of_lt_of_le hs.nonempty hs.inside)⟩
  · obtain rfl := List.mem_singleton.mp ht
    exact ⟨rfl, Nat.le_refl _⟩

/-- Tokens come in the order of their places. -/
theorem pairwise_before (h : Path leader source i ts) :
    ts.Pairwise fun t u => Before t.start u.start := by
  induction h with
  | finish => exact List.pairwise_singleton _ _
  | blank _ _ _ ih => exact ih
  | comment _ _ _ _ ih => exact ih
  | @token t ts stands rest ih =>
    refine List.pairwise_cons.mpr ⟨fun u hu => ?_, ih⟩
    obtain ⟨hplace, hle⟩ := rest.start_of_mem hu
    rw [stands.place, hplace]
    exact placeAt_before (Nat.lt_of_lt_of_le stands.nonempty (rest.le_start hu)) hle

/-- What the path passes over without a token is blank, or in a comment that opens on the path. -/
theorem isBlank_or_commentSpan (h : Path leader source i ts) {k : Nat} {c : Char} (hi : i ≤ k)
    (hc : source[k]? = some c) (hk : ∀ t ∈ ts, ¬ t.Covers k) :
    Text.isBlank c = true ∨ ∃ p, i ≤ p ∧ CommentSpan leader source ts p k := by
  induction h with
  | finish =>
    rw [List.getElem?_eq_none hi] at hc
    cases hc
  | @blank i _ _ here blank _ ih =>
    by_cases he : i = k
    · subst he
      rw [here] at hc
      cases hc
      exact .inl blank
    · obtain hb | ⟨p, hp, hs⟩ := ih (by omega) hk
      · exact .inl hb
      · exact .inr ⟨p, by omega, hs⟩
  | @comment i j _ opens ahead line rest ih =>
    by_cases hj : k < j
    · refine .inr ⟨i, Nat.le_refl i, hi, opens, ?_, ?_⟩
      · intro q d hq hqk
        exact line q d hq (by omega)
      · rintro t ht q - hqk ⟨hstart, -⟩
        have := rest.le_start ht
        omega
    · obtain hb | ⟨p, hp, hs⟩ := ih (by omega) hk
      · exact .inl hb
      · exact .inr ⟨p, by omega, hs⟩
  | @token t _ stands rest ih =>
    have hstop : t.stop ≤ k := by
      by_contra hn
      exact hk t List.mem_cons_self ⟨hi, Nat.lt_of_not_le hn⟩
    have hne := stands.nonempty
    obtain hb | ⟨p, hp, hs⟩ := ih hstop fun u hu => hk u (List.mem_cons_of_mem t hu)
    · exact .inl hb
    · refine .inr ⟨p, by omega, hs.le, hs.opens, hs.line, List.forall_mem_cons.mpr ⟨?_, hs.free⟩⟩
      rintro q hq - ⟨-, hqt⟩
      omega

end Path

theorem path_scan (source leader : String) :
    Path leader.toList source.toList 0 (scan source leader) :=
  path_scanFrom leader.toList source.toList (Nat.zero_le _) rfl rfl

/-- The tokens of a source end with the only end mark, at the end of the source. The others take at
least one character each, in order, none of which two of them share; lines and columns are counted
as the text in front of a token has them; and what no token takes is blank or in a comment. Names,
numbers and punctuation say what stands in the source, and labels do up to their colon. -/
theorem scan_in_place (source leader : String) :
    (∃ body, scan source leader = body ++ [endMark source.toList] ∧
        ∀ t ∈ body, t.kind ≠ .eof ∧ t.start.offset < t.stop ∧ t.stop ≤ source.toList.length) ∧
      (scan source leader).Pairwise (fun t u => t.stop ≤ u.start.offset) ∧
      (∀ t ∈ scan source leader,
        t.line = 1 + (source.toList.take t.start.offset).count '\n' ∧
          t.start.column = (lastLine (source.toList.take t.start.offset)).length) ∧
      (∀ k c, source.toList[k]? = some c → (∀ t ∈ scan source leader, ¬ t.Covers k) →
        Text.isBlank c = true ∨
          InComment leader.toList source.toList (scan source leader) k) ∧
      ∀ t ∈ scan source leader,
        (t.kind.isVerbatim = true →
          t.text.toList = source.toList.extract t.start.offset t.stop) ∧
          (t.kind = .label →
            t.text.toList ++ [':'] = source.toList.extract t.start.offset t.stop) := by
  have path := path_scan source leader
  generalize scan source leader = ts at path ⊢
  generalize source.toList = s at path ⊢
  obtain ⟨body, hts, stands⟩ := path.exists_body
  have split {t : Token} (ht : t ∈ ts) : Stands s t ∨ t = endMark s := by
    rw [hts, List.mem_append, List.mem_singleton] at ht
    exact ht.imp_left (stands t)
  refine ⟨⟨body, hts, ?_⟩, path.pairwise, ?_, ?_, ?_⟩
  · intro t ht
    have h := stands t ht
    exact ⟨h.kind, h.nonempty, h.inside⟩
  · intro t ht
    obtain h | rfl := split ht
    · exact ⟨congrArg Position.line h.place, congrArg Position.column h.place⟩
    · exact ⟨rfl, rfl⟩
  · intro k c hc hk
    obtain hb | ⟨p, -, hp⟩ := path.isBlank_or_commentSpan (Nat.zero_le k) hc hk
    · exact .inl hb
    · exact .inr ⟨p, hp⟩
  · intro t ht
    obtain h | rfl := split ht
    · exact ⟨h.verbatim, h.label⟩
    · exact ⟨nofun, nofun⟩

/-- A label and a comment with a quote in it, then a string over two lines. -/
def threeLines : String := "x: # \"y\n\"a#\nb\" 7"

theorem scan_in_place_of_threeLines :
    (∃ t ∈ scan threeLines "#", t.kind = .label ∧
        t.text.toList ++ [':'] = threeLines.toList.extract 0 2) ∧
      InComment ['#'] threeLines.toList (scan threeLines "#") 6 ∧
        ∃ t ∈ scan threeLines "#", t.kind = .integer ∧ t.line = 3 ∧ t.start.column = 3 ∧
          t.text.toList = threeLines.toList.extract 15 16 := by
  have hts : scan threeLines "#" = [⟨.label, "x", ⟨0, 1, 0⟩, 2⟩,
      ⟨.string, "a#\nb", ⟨8, 2, 0⟩, 14⟩, ⟨.integer, "7", ⟨15, 3, 3⟩, 16⟩,
      ⟨.eof, "", ⟨16, 3, 4⟩, 16⟩] := by
    decide_cbv
  have hlabel : (⟨.label, "x", ⟨0, 1, 0⟩, 2⟩ : Token) ∈ scan threeLines "#" := by simp [hts]
  have hnumber : (⟨.integer, "7", ⟨15, 3, 3⟩, 16⟩ : Token) ∈ scan threeLines "#" := by simp [hts]
  have hfree : ∀ t ∈ scan threeLines "#", ¬ t.Covers 6 := by simp [hts, Covers]
  obtain ⟨-, -, -, covered, text⟩ := scan_in_place threeLines "#"
  obtain hblank | hcomment := covered 6 'y' (by decide_cbv) hfree
  · exact absurd hblank (by decide)
  · exact ⟨⟨_, hlabel, rfl, (text _ hlabel).2 rfl⟩, hcomment, _, hnumber, rfl, rfl, rfl,
      (text _ hnumber).1 rfl⟩

end Minicomputer.Token
