import Minicomputer.Machine.Basic
import Minicomputer.Proofs.Assembly.Address
import Minicomputer.Proofs.Token.Words

/-!
# Loading assembled programs

The assembler adds up the sizes of the elements, a machine counts the bytes. The two agree but for a
text of more bytes than a word can count, whose size is taken modulo the range of a word: a program
with such a text is accepted, and no machine loads it.
-/

set_option autoImplicit false

namespace Minicomputer

theorem Machine.load_eq_ok_iff {σ : Type} (S : System σ) (p : Program) (m : Machine σ) :
    (m.load S p).1 = .ok () ↔ p.imageSize ≤ memorySize := by
  unfold Machine.load Memory.loadImage Program.imageSize
  by_cases hc : 0 + p.code.length > memorySize
  · simp only [hc, if_true, reduceCtorEq, false_iff]
    omega
  · by_cases hd : p.code.length + p.data.length > memorySize
    · simp only [hc, hd, if_true, if_false, reduceCtorEq, false_iff]
      omega
    · simp only [hc, hd, if_false, true_iff]
      omega

namespace Assembly

variable {settings : Settings} {source : String} {p : Program}

theorem fits_of_textsCounted (h : (assemble settings source).program = some p)
    (ht : TextsCounted (dataValues (entries settings source))) : p.imageSize ≤ memorySize := by
  rw [← size_eq_of_counted h (datum_length_of_counted ht)]
  exact (accepted_of_some h).fits

/-! ### A text of many letters -/

open Token

/-- A source with one text of `n` letters. -/
def lettersSource (n : Nat) : String :=
  String.ofList ('.' :: 'd' :: 'a' :: 't' :: 'a' :: '\n' :: '"' :: (List.replicate n 'a' ++ ['"']))

theorem stringBody_letters (n : Nat) :
    stringBody (List.replicate n 'a' ++ ['"']) = some (List.replicate n 'a', n + 1) := by
  induction n with
  | zero => rfl
  | succ n ih =>
    rw [List.replicate_succ, List.cons_append, stringBody, ih]
    · rfl
    · simp
    · simp
    · simp

theorem lexeme_dot (s : List Char) : lexeme ['#'] '.' s = ⟨some (.dot, "."), 0⟩ := by
  rw [lexeme, not_opensWith (by decide)]
  simp [startsWord, punctuation, verbatim]

theorem lexeme_data (s : List Char) :
    lexeme ['#'] 'd' ('a' :: 't' :: 'a' :: '\n' :: s) = ⟨some (.identifier, "data"), 3⟩ := by
  have hn : isName "data".toList = true := by decide_cbv
  obtain ⟨c, cs, ht, -, hf⟩ := (lexes_name hn).front
  have hs : "data".toList = ['d', 'a', 't', 'a'] := by decide_cbv
  rw [hs] at ht
  cases ht
  exact hf ('\n' :: s) (by simp [Ends])

theorem lexeme_letters (n : Nat) :
    lexeme ['#'] '"' (List.replicate n 'a' ++ ['"']) =
      ⟨some (.string, String.ofList (List.replicate n 'a')), n + 1⟩ := by
  rw [lexeme, not_opensWith (by decide)]
  simp [stringLiteral, stringBody_letters]

theorem scan_lettersSource (n : Nat) : ∃ stop q,
    scan (lettersSource n) defaultLeader =
      [⟨.dot, ".", ⟨0, 1, 0⟩, 1⟩, ⟨.identifier, "data", ⟨1, 1, 1⟩, 5⟩,
        ⟨.string, String.ofList (List.replicate n 'a'), ⟨6, 2, 0⟩, stop⟩,
        ⟨.eof, "", q, q.offset⟩] := by
  have hd : defaultLeader.toList = ['#'] := by decide_cbv
  rw [scan, lettersSource, String.toList_ofList, hd]
  rw [scanFrom, if_neg (by decide)]
  simp only [lexeme_dot, List.take_zero, List.drop_zero]
  rw [scanFrom, if_neg (by decide)]
  simp only [lexeme_data, List.take_succ_cons, List.take_zero, List.drop_succ_cons, List.drop_zero]
  rw [scanFrom_blank (by decide), scanFrom, if_neg (by decide)]
  simp only [lexeme_letters]
  have hdrop : (List.replicate n 'a' ++ ['"']).drop (n + 1) = [] := by simp
  rw [hdrop, scanFrom_nil]
  exact ⟨_, _, rfl⟩

theorem draft_lettersSource (n : Nat) : ∃ t : Token, draft {} (lettersSource n) =
    { segment := .data, data := #[⟨t, .string (String.ofList (List.replicate n 'a')), []⟩] } := by
  obtain ⟨stop, q, hscan⟩ := scan_lettersSource n
  have hl : lines (scan (lettersSource n) defaultLeader) =
      [[⟨.dot, ".", ⟨0, 1, 0⟩, 1⟩, ⟨.identifier, "data", ⟨1, 1, 1⟩, 5⟩],
        [⟨.string, String.ofList (List.replicate n 'a'), ⟨6, 2, 0⟩, stop⟩]] := by
    rw [hscan]
    rfl
  have hs : segment? [⟨.dot, ".", ⟨0, 1, 0⟩, 1⟩, ⟨.identifier, "data", ⟨1, 1, 1⟩, 5⟩] =
      some .data := by decide_cbv
  have hascii : (List.replicate n 'a').all (fun c => c.toNat < 128) = true := by
    rw [List.all_replicate]
    simp
  refine ⟨⟨.string, String.ofList (List.replicate n 'a'), ⟨6, 2, 0⟩, stop⟩, ?_⟩
  rw [draft, Draft.ofTokens, hl, List.foldl_cons, List.foldl_cons, List.foldl_nil]
  simp only [Draft.addLine, hs]
  simp [segment?, directive?, Draft.addDatum, Draft.bind, Draft.value, Reading.all, hascii,
    Draft.close]
  rfl

theorem bytesOfText_letters (n : Nat) :
    (bytesOfText (String.ofList (List.replicate n 'a'))).length = n := by
  have hc : String.utf8EncodeChar 'a' = [97] := by decide_cbv
  rw [bytesOfText, String.toList_ofList]
  induction n with
  | zero => rfl
  | succ n ih =>
    rw [List.replicate_succ, List.flatMap_cons, List.length_append, ih, hc, Nat.add_comm]
    rfl

/-- The size of a text counts only modulo the range of a word. -/
theorem program_lettersSource {n : Nat} (h : (n + 1) % 65536 ≤ memorySize) :
    ∃ p, (assemble {} (lettersSource n)).program = some p ∧ p.imageSize = n + 1 := by
  obtain ⟨t, hd⟩ := draft_lettersSource n
  have hlength := bytesOfText_letters n
  have hnil : (assemble {} (lettersSource n)).diagnostics = [] := by
    show (draft {} (lettersSource n)).diagnostics = []
    rw [hd]
    refine diagnostics_eq_nil_iff.mpr ⟨by simp, by simp, rfl, ?_⟩
    show 0 + (((bytesOfText (String.ofList (List.replicate n 'a'))).length + 1) % 65536 + 0) ≤ _
    rw [hlength]
    omega
  obtain ⟨p, hp⟩ := Option.isSome_iff_exists.mp ((program_isSome_iff {} _).mpr hnil)
  refine ⟨p, hp, ?_⟩
  rw [eq_program_of_some hp, hd]
  show 0 + (bytesOfText _ ++ [0] ++ []).length = n + 1
  simp [hlength]

/-- A program that the assembler makes is loaded, by whatever machine, exactly where each of its
texts with its NUL takes less than 65536 bytes. -/
theorem load_eq_ok_iff_textsCounted (h : (assemble settings source).program = some p) :
    (p.imageSize ≤ memorySize ↔ TextsCounted (dataValues (entries settings source))) ∧
      ∀ (σ : Type) (S : System σ) (m : Machine σ),
        (m.load S p).1 = .ok () ↔ TextsCounted (dataValues (entries settings source)) := by
  have hi : p.imageSize ≤ memorySize ↔ TextsCounted (dataValues (entries settings source)) :=
    ⟨textsCounted_of_fits h, fits_of_textsCounted h⟩
  exact ⟨hi, fun σ S m => (Machine.load_eq_ok_iff S p m).trans hi⟩

/-- A text of 65536 letters counts as one byte. -/
theorem load_ne_ok_of_letters :
    ∃ p, (assemble {} (lettersSource 65536)).program = some p ∧ memorySize < p.imageSize ∧
      ∀ (σ : Type) (S : System σ) (m : Machine σ), (m.load S p).1 ≠ .ok () := by
  obtain ⟨p, hp, hz⟩ := program_lettersSource (n := 65536) (by decide)
  obtain ⟨hsize, hload⟩ := load_eq_ok_iff_textsCounted hp
  have hlarge : memorySize < p.imageSize := by
    rw [hz]
    decide
  refine ⟨p, hp, hlarge, fun σ S m hm => ?_⟩
  have := hsize.mpr ((hload σ S m).mp hm)
  omega

end Assembly
end Minicomputer
