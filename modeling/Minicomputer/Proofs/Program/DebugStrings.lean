import Minicomputer.Program.Basic
import Minicomputer.Proofs.Instruction.Spelling

/-!
# Debug strings

A debug string may refer to registers. What becomes of one of its characters is told by its place in
the string: it begins a reference, it belongs to the reference in front of it, or it stays.
-/

set_option autoImplicit false

namespace Minicomputer

theorem Register.ofName?_eq_some_iff {s : String} {r : Register} :
    ofName? s = some r ↔ r.name = s.toLower := by
  constructor
  · intro h
    unfold ofName? at h
    have hfound := List.find?_some h
    exact eq_of_beq hfound
  · intro h
    have hlower : ∀ r ∈ all, r.name.toLower = r.name := by decide_cbv
    have hr := r.ofName?_name
    rwa [ofName?, hlower r r.mem_all, h] at hr

namespace DebugInfo

/-- The letters and digits from a place on. -/
def wordAt (t : List Char) (i : Nat) : List Char := (t.drop i).takeWhile Char.isAlphanum

/-- The readable register that a word names, in any letter case. -/
def named? (word : List Char) : Option Register :=
  Register.all.find? fun r => r.isReadable && r.name.toList == word.map Char.toLower

/-- The register that is referred to at a place. -/
def reference? (t : List Char) (i : Nat) : Option Register :=
  if t[i]? = some '$' then named? (wordAt t (i + 1)) else none

/-- A place in the name of a register that is referred to. -/
def Inside (t : List Char) (i : Nat) : Prop :=
  ∃ j < i, (reference? t j).isSome = true ∧ i ≤ j + (wordAt t (j + 1)).length

instance (t : List Char) (i : Nat) : Decidable (Inside t i) := by unfold Inside; infer_instance

/-- What becomes of the character at a place. -/
def piece (f : RegisterFile) (t : List Char) (i : Nat) : List Char :=
  match reference? t i with
  | some r => (toString (f.get r).signed).toList
  | none => if Inside t i then [] else t[i]?.toList

def pieces (f : RegisterFile) (t : List Char) : List Char :=
  (List.range t.length).flatMap (piece f t)

variable {f : RegisterFile} {a b t word rest : List Char} {i j : Nat} {r : Register}

theorem named?_eq_some_iff :
    named? word = some r ↔ r.name = (String.ofList word).toLower ∧ r.isReadable = true := by
  have hname (s : Register) : s.name.toList = word.map Char.toLower ↔
      s.name = (String.ofList word).toLower := by
    rw [← String.toList_inj, String.toLower, String.toList_map, String.toList_ofList]
  constructor
  · intro h
    have hfound := List.find?_some h
    rw [Bool.and_eq_true, beq_iff_eq, hname] at hfound
    exact hfound.symm
  · rintro ⟨hr, hreadable⟩
    cases hfind : named? word with
    | none =>
      have hnone := List.find?_eq_none.mp hfind r r.mem_all
      rw [Bool.and_eq_true, beq_iff_eq, hname] at hnone
      exact absurd ⟨hreadable, hr⟩ hnone
    | some s =>
      have hfound := List.find?_some hfind
      rw [Bool.and_eq_true, beq_iff_eq, hname] at hfound
      have hs := Register.ofName?_eq_some_iff.mpr hfound.2
      rw [Register.ofName?_eq_some_iff.mpr hr] at hs
      exact hs.symm

theorem named?_eq (word : List Char) :
    named? word = (Register.ofName? (String.ofList word)).filter (·.isReadable) := by
  ext r
  rw [named?_eq_some_iff, Option.filter_eq_some_iff, Register.ofName?_eq_some_iff]

/-! ### Places in a text with another one behind it -/

/-- No word runs into the text. -/
def Separate (b : List Char) : Prop := ∀ c ∈ b.head?, c.isAlphanum = false

theorem takeWhile_of_separate (hb : Separate b) : b.takeWhile Char.isAlphanum = [] := by
  cases b with
  | nil => rfl
  | cons c b => rw [List.takeWhile_cons, hb c rfl]; rfl

theorem separate_dropWhile (s : List Char) : Separate (s.dropWhile Char.isAlphanum) := by
  intro c hc
  have h := List.head?_dropWhile_not Char.isAlphanum s
  rwa [Option.mem_def.mp hc] at h

theorem wordAt_append_left (hb : Separate b) (hi : i ≤ a.length) :
    wordAt (a ++ b) i = wordAt a i := by
  unfold wordAt
  rw [List.drop_append_of_le_length hi, List.takeWhile_append, takeWhile_of_separate hb,
    List.append_nil]
  split
  · next h => exact ((List.takeWhile_prefix _).eq_of_length h).symm
  · rfl

theorem wordAt_append_right (k : Nat) : wordAt (a ++ b) (a.length + k) = wordAt b k := by
  rw [wordAt, List.drop_length_add_append, wordAt]

theorem length_wordAt_le (t : List Char) (i : Nat) : (wordAt t i).length ≤ t.length - i := by
  have h := (List.takeWhile_prefix Char.isAlphanum (l := t.drop i)).length_le
  rwa [List.length_drop] at h

theorem reference?_append_left (hb : Separate b) (hi : i < a.length) :
    reference? (a ++ b) i = reference? a i := by
  rw [reference?, reference?, List.getElem?_append_left hi, wordAt_append_left hb hi]

theorem reference?_append_right (k : Nat) :
    reference? (a ++ b) (a.length + k) = reference? b k := by
  rw [reference?, reference?, List.getElem?_append_right (Nat.le_add_right ..),
    Nat.add_sub_cancel_left, Nat.add_assoc, wordAt_append_right]

theorem piece_append_left (hb : Separate b) (hi : i < a.length) :
    piece f (a ++ b) i = piece f a i := by
  have hinside : Inside (a ++ b) i ↔ Inside a i := by
    unfold Inside
    refine exists_congr fun j => and_congr_right fun hj => ?_
    rw [reference?_append_left hb (hj.trans hi), wordAt_append_left hb (by omega)]
  unfold piece
  rw [reference?_append_left hb hi, List.getElem?_append_left hi]
  simp only [hinside]

/-- What is behind a text does not depend on it, if no reference in it reaches that far. -/
theorem piece_append_right
    (h : ∀ j < a.length, (reference? (a ++ b) j).isSome = true →
      j + (wordAt (a ++ b) (j + 1)).length < a.length) (k : Nat) :
    piece f (a ++ b) (a.length + k) = piece f b k := by
  have hinside : Inside (a ++ b) (a.length + k) ↔ Inside b k := by
    constructor
    · rintro ⟨j, hj, href, hle⟩
      -- The reference cannot begin in front of the cut, since it would end there too.
      have hge : a.length ≤ j := by
        refine Nat.le_of_not_lt fun hlt => ?_
        have hreach := h j hlt href
        omega
      obtain ⟨j, rfl⟩ := Nat.exists_eq_add_of_le hge
      rw [reference?_append_right] at href
      rw [Nat.add_assoc a.length j 1, wordAt_append_right] at hle
      exact ⟨j, by omega, href, by omega⟩
    · rintro ⟨j, hj, href, hle⟩
      refine ⟨a.length + j, by omega, ?_, ?_⟩
      · rwa [reference?_append_right]
      · rw [Nat.add_assoc a.length j 1, wordAt_append_right]
        omega
  unfold piece
  rw [reference?_append_right, List.getElem?_append_right (Nat.le_add_right ..),
    Nat.add_sub_cancel_left]
  simp only [hinside]

theorem pieces_append_of_reach
    (h : ∀ j < a.length, (reference? (a ++ b) j).isSome = true →
      j + (wordAt (a ++ b) (j + 1)).length < a.length) :
    pieces f (a ++ b) = (List.range a.length).flatMap (piece f (a ++ b)) ++ pieces f b := by
  unfold pieces
  rw [List.length_append, List.range_add, List.flatMap_append, List.flatMap_map]
  simp only [piece_append_right h]

theorem pieces_append (hb : Separate b) : pieces f (a ++ b) = pieces f a ++ pieces f b := by
  have hreach : ∀ j < a.length, (reference? (a ++ b) j).isSome = true →
      j + (wordAt (a ++ b) (j + 1)).length < a.length := by
    intro j hj _
    have hlength := length_wordAt_le a (j + 1)
    rw [wordAt_append_left hb (show j + 1 ≤ a.length from hj)]
    omega
  rw [pieces_append_of_reach hreach, pieces, pieces]
  congr 1
  exact List.flatMap_congr fun i hi => piece_append_left hb (List.mem_range.mp hi)

/-! ### The loop -/

/-- A character stays that does not begin a reference. -/
theorem pieces_cons {c : Char} {s : List Char} (h : reference? (c :: s) 0 = none) :
    pieces f (c :: s) = c :: pieces f s := by
  have hreach : ∀ j < [c].length, (reference? ([c] ++ s) j).isSome = true →
      j + (wordAt ([c] ++ s) (j + 1)).length < [c].length := by
    intro j hj href
    obtain rfl : j = 0 := Nat.lt_one_iff.mp hj
    rw [List.singleton_append, h] at href
    cases href
  have hinside : ¬Inside (c :: s) 0 := fun ⟨j, hj, _⟩ => Nat.not_lt_zero j hj
  have hpiece : piece f (c :: s) 0 = [c] := by
    rw [piece, h]
    exact if_neg hinside
  rw [← List.singleton_append, pieces_append_of_reach hreach, List.length_singleton,
    List.range_one, List.flatMap_singleton, List.singleton_append, hpiece, List.singleton_append]

/-- A reference is replaced as a whole. -/
theorem pieces_reference (hw : ∀ c ∈ word, c.isAlphanum = true) (hr : named? word = some r) :
    pieces f ('$' :: word) = (toString (f.get r).signed).toList := by
  have hword : wordAt ('$' :: word) 1 = word := List.takeWhile_eq_self_iff.mpr hw
  have href : reference? ('$' :: word) 0 = some r := by
    have hdollar : ('$' :: word)[0]? = some '$' := rfl
    rw [reference?, if_pos hdollar, hword, hr]
  have hfirst : piece f ('$' :: word) 0 = (toString (f.get r).signed).toList := by
    rw [piece, href]
  have hrest : ∀ i < word.length, piece f ('$' :: word) (i + 1) = [] := by
    intro i hi
    have hnone : reference? ('$' :: word) (i + 1) = none := by
      refine if_neg fun h => ?_
      rw [List.getElem?_cons_succ] at h
      exact absurd (hw _ (List.mem_of_getElem? h)) (by decide)
    have hinside : Inside ('$' :: word) (i + 1) := by
      refine ⟨0, Nat.succ_pos i, ?_, ?_⟩
      · rw [href]
        rfl
      · rw [hword]
        omega
    rw [piece, hnone]
    exact if_pos hinside
  rw [pieces, List.length_cons, List.range_succ_eq_map, List.flatMap_cons, List.flatMap_map, hfirst,
    List.flatMap_eq_nil_iff.mpr fun i hi => hrest i (List.mem_range.mp hi), List.append_nil]

theorem expand_eq_pieces (f : RegisterFile) (t : List Char) : expand f t = pieces f t := by
  fun_induction expand f t with
  | case1 => rfl
  | case2 s name r h ih =>
    -- The name is the longest run, so the string may be cut behind it.
    have hs : s = name ++ s.dropWhile Char.isAlphanum := List.takeWhile_append_dropWhile.symm
    have hrest : s.drop name.length = s.dropWhile Char.isAlphanum := by
      nth_rewrite 1 [hs]
      exact List.drop_left
    have hname : ∀ c ∈ name, c.isAlphanum = true := fun c hc => List.mem_takeWhile_imp hc
    rw [← named?_eq] at h
    rw [ih, hrest, ← pieces_reference hname h, ← pieces_append (separate_dropWhile s),
      List.cons_append, ← hs]
  | case3 s name h ih =>
    rw [← named?_eq] at h
    rw [ih, pieces_cons]
    exact (if_pos rfl).trans h
  | case4 c s h ih =>
    rw [ih, pieces_cons]
    exact if_neg fun hc => h (Option.some.inj hc)

/-- In a debug string, dollar signs that stand in front of the name of a readable register, as the
longest run of letters and digits, are replaced together with the name by the value of the register,
and every other character stays. A string may be cut anywhere but in front of a letter or a digit. -/
theorem debugString_expands (f : RegisterFile) :
    (∀ (d : DebugInfo) (index : Nat), d.debugString? index f =
      (d.debugStrings[index]?).map fun t => String.ofList (pieces f t.toList)) ∧
    ∀ a b : List Char, (∀ c ∈ b.head?, c.isAlphanum = false) →
      expand f (a ++ b) = expand f a ++ expand f b := by
  constructor
  · intro d index
    simp only [debugString?, expand_eq_pieces]
  · intro a b hb
    simp only [expand_eq_pieces]
    exact pieces_append hb

/-- A string with references side by side, and with dollar signs that refer to nothing. -/
def watching : DebugInfo :=
  { assemblyFile := "", assemblySource := "", assemblyLines := #[], sourceFile := "",
    sourceLines := #[], globals := [], locals := #[],
    debugStrings := ["é$$T0x $t0$SP,$flags$t0"] }

def watched : RegisterFile := (RegisterFile.zero.set .t0 (Word.ofInt (-5))).set .sp 7

theorem debugString_expands_watching :
    watching.debugString? 0 watched = some "é$$T0x -57,$flags-5" ∧
      expand watched (['$', 't', '0'] ++ ['$', 's', 'p']) =
        expand watched ['$', 't', '0'] ++ expand watched ['$', 's', 'p'] := by
  obtain ⟨hstring, happend⟩ := debugString_expands watched
  have hcut : ∀ c ∈ ['$', 's', 'p'].head?, c.isAlphanum = false := by
    rintro c ⟨⟩
    rfl
  refine ⟨?_, happend _ _ hcut⟩
  rw [hstring]
  decide +kernel

end DebugInfo
end Minicomputer
