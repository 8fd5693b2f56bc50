import Minicomputer.Json.Read
import Minicomputer.Proofs.Token.Words

/-!
# Reading what was written

Every value without fractions is read back from its text, whatever its strings hold. What is read
of a value does not go past it, because a value is followed by a comma, a line end or nothing; so a
value is read the same inside of another one.
-/

set_option autoImplicit false

namespace Minicomputer.Json

variable {c : Char} {n fuel : Nat} {s t u rest : List Char}

attribute [local simp] pieces? denoted? value? items? members? Value.write

/-! ### Blanks -/

theorem skip_of_not_blank (h : isBlank c = false) (s : List Char) : skip (c :: s) = c :: s :=
  List.dropWhile_cons_of_neg (by rw [h]; decide)

theorem skip_append {blanks : List Char} (h : ∀ c ∈ blanks, isBlank c = true) (s : List Char) :
    skip (blanks ++ s) = skip s :=
  List.dropWhile_append_of_pos h

theorem skip_newLine (depth : Nat) (s : List Char) : skip (newLine depth ++ s) = skip s := by
  refine skip_append (fun c hc => ?_) s
  obtain rfl | hc := List.mem_cons.mp hc
  · rfl
  · rw [List.eq_of_mem_replicate hc]
    rfl

theorem value?_skip (fuel : Nat) (h : skip s = skip t) :
    value? fuel s = value? fuel t := by
  cases fuel with
  | zero => rfl
  | succ fuel => rw [value?, value?, h]

/-! ### Strings -/

/-- In front of any other pieces, a piece denotes a character. -/
def Denotes (p : Piece) (c : Char) : Prop :=
  ∀ found ps, denoted? found (p :: ps) = denoted? (c :: found) ps

theorem denotes_char (c : Char) : Denotes (.char c) c := fun _ _ => rfl

theorem denotes_unit (h : c.toNat < 0xD800) : Denotes (.unit c.toNat) c := by
  intro found ps
  have h₁ : ¬ (0xD800 ≤ c.toNat ∧ c.toNat < 0xDC00) := by omega
  have h₂ : ¬ (0xDC00 ≤ c.toNat ∧ c.toNat < 0xE000) := by omega
  rw [denoted?.eq_def]
  dsimp only
  rw [if_neg h₁, if_neg h₂, Char.ofNat_toNat]

/-- The numbers of control characters have four digits. -/
theorem hex_of_control : ∀ n < 0x20, (Text.hex 4 n).toList.length = 4 ∧
    (Text.hex 4 n).toList.all isHexDigit = true ∧ Text.numeral 16 (Text.hex 4 n).toList = n := by
  decide

theorem pieces?_unit (h : c.toNat < 0x20) (found : List Piece) (s : List Char) :
    pieces? found ('\\' :: 'u' :: (Text.hex 4 c.toNat).toList ++ s) =
      pieces? (.unit c.toNat :: found) s := by
  obtain ⟨hlength, hdigits, hvalue⟩ := hex_of_control c.toNat h
  generalize (Text.hex 4 c.toNat).toList = digits at hlength hdigits hvalue
  obtain ⟨w, x, y, z, rfl⟩ := List.length_eq_four.mp hlength
  change pieces? found ('\\' :: 'u' :: w :: x :: y :: z :: s) = _
  rw [pieces?, if_pos hdigits, hvalue]

theorem pieces?_char (hq : c ≠ '"') (hb : c ≠ '\\') (h : ¬ c.toNat < 0x20) (found : List Piece)
    (s : List Char) : pieces? found (c :: s) = pieces? (.char c :: found) s := by
  rw [pieces?.eq_def]
  split <;> simp_all

theorem pieces?_escape (c : Char) :
    ∃ p, Denotes p c ∧ ∀ found s, pieces? found (escape c ++ s) = pieces? (p :: found) s := by
  by_cases hc : c ∈ ['"', '\\', '\x08', '\x0c', '\n', '\r', '\t']
  · refine ⟨.char c, denotes_char c, fun found s => ?_⟩
    simp only [List.mem_cons, List.not_mem_nil, or_false] at hc
    obtain rfl | rfl | rfl | rfl | rfl | rfl | rfl := hc <;> rfl
  · have hne (d : Char) (hd : d ∈ ['"', '\\', '\x08', '\x0c', '\n', '\r', '\t']) : c ≠ d :=
      fun h => hc (h ▸ hd)
    unfold escape
    rw [if_neg (hne _ (by decide)), if_neg (hne _ (by decide)), if_neg (hne _ (by decide)),
      if_neg (hne _ (by decide)), if_neg (hne _ (by decide)), if_neg (hne _ (by decide)),
      if_neg (hne _ (by decide))]
    split
    · next h => exact ⟨_, denotes_unit (by omega), pieces?_unit h⟩
    · next h =>
      exact ⟨_, denotes_char c, pieces?_char (hne _ (by decide)) (hne _ (by decide)) h⟩

theorem pieces?_flatMap_escape (s : List Char) (found : List Piece) (rest : List Char) :
    ∃ ps, pieces? found (s.flatMap escape ++ '"' :: rest) = some (found.reverse ++ ps, rest) ∧
      ∀ done, denoted? done ps = some (done.reverse ++ s) := by
  induction s generalizing found with
  | nil =>
    refine ⟨[], ?_, fun done => ?_⟩
    · rw [List.append_nil]
      rfl
    · rw [List.append_nil]
      rfl
  | cons c s ih =>
    obtain ⟨p, hp, hc⟩ := pieces?_escape c
    obtain ⟨ps, hps, hs⟩ := ih (p :: found)
    refine ⟨p :: ps, ?_, fun done => ?_⟩
    · rw [List.flatMap_cons, List.append_assoc, hc, hps, List.reverse_cons, List.append_assoc]
      rfl
    · rw [hp, hs, List.reverse_cons, List.append_assoc]
      rfl

/-- A string literal from behind its opening quote. -/
theorem literal?_escape (s : String) (rest : List Char) :
    literal? (s.toList.flatMap escape ++ '"' :: rest) = some (some s, rest) := by
  obtain ⟨ps, hps, hs⟩ := pieces?_flatMap_escape s.toList [] rest
  have ht : (denoted? [] ps).map String.ofList = some s := by
    rw [hs]
    exact congrArg some s.ofList_toList
  unfold literal?
  rw [hps, Option.map_some]
  exact congrArg (fun text => some (text, rest)) ht

/-- The text of a key, from behind its opening quote and as far as its closing one. -/
def keyBody : Option String → List Char
  | some k => k.toList.flatMap escape ++ ['"']
  | none => ['\\', 'u', 'd', '8', '0', '0', '"']

theorem writeKey_eq (k : Option String) : writeKey k = '"' :: (keyBody k ++ [':', ' ']) := by
  cases k with
  | some k => rfl
  | none => rfl

theorem literal?_keyBody (k : Option String) (rest : List Char) :
    literal? (keyBody k ++ rest) = some (k, rest) := by
  cases k with
  | some k =>
    unfold keyBody
    rw [List.append_assoc]
    exact literal?_escape k rest
  | none =>
    have hpieces : pieces? [] (keyBody none ++ rest) = some ([.unit 0xD800], rest) := by
      change pieces? [] ('\\' :: 'u' :: 'd' :: '8' :: '0' :: '0' :: '"' :: rest) = _
      rw [pieces?, if_pos (by decide)]
      rfl
    unfold literal?
    rw [hpieces]
    rfl

/-! ### Numbers -/

/-- What can follow a value. -/
inductive Follows : List Char → Prop
  | nil : Follows []
  | comma (s : List Char) : Follows (',' :: s)
  | line (s : List Char) : Follows ('\n' :: s)

theorem Follows.fraction? (h : Follows rest) : fraction? rest = some ([], rest) := by
  cases h <;> rfl

theorem Follows.exponent? (h : Follows rest) : exponent? rest = some ([], rest) := by
  cases h <;> rfl

theorem digits?_append {ds : List Char} (hne : ds ≠ []) (hd : ∀ c ∈ ds, c.isDigit = true)
    (h : Follows rest) : digits? (ds ++ rest) = some (ds, rest) := by
  have ht : rest.takeWhile Char.isDigit = [] := by cases h <;> rfl
  have hr : rest.dropWhile Char.isDigit = rest := by cases h <;> rfl
  unfold digits?
  rw [List.takeWhile_append_of_pos hd, List.dropWhile_append_of_pos hd, ht, hr, List.append_nil]
  cases ds with
  | nil => exact absurd rfl hne
  | cons c ds => rfl

/-- The digits of a number begin with a zero only if it is zero. -/
theorem toDigits_ne_zero_cons (h : n ≠ 0) (ds : List Char) : Nat.toDigits 10 n ≠ '0' :: ds := by
  induction n using Nat.strongRecOn generalizing ds with
  | ind n ih =>
    obtain hn | hn := Nat.lt_or_ge n 10
    · have hd : ∀ n < 10, n ≠ 0 → n.digitChar ≠ '0' := by decide
      rw [Nat.toDigits_of_lt_base hn]
      exact fun hc => hd n hn h (List.cons.inj hc).1
    · have hq : n / 10 ≠ 0 := by omega
      rw [Nat.toDigits_of_base_le (by decide) hn]
      cases hs : Nat.toDigits 10 (n / 10) with
      | nil => exact absurd hs Nat.toDigits_ne_nil
      | cons c t =>
        intro hc
        rw [(List.cons.inj hc).1] at hs
        exact ih (n / 10) (by omega) hq t hs

theorem whole?_toDigits (n : Nat) (h : Follows rest) :
    whole? (Nat.toDigits 10 n ++ rest) = some (Nat.toDigits 10 n, rest) := by
  have hd (c : Char) (hc : c ∈ Nat.toDigits 10 n) : c.isDigit = true :=
    Nat.isDigit_of_mem_toDigits (by decide) (by decide) hc
  unfold whole?
  rw [digits?_append Nat.toDigits_ne_nil hd h]
  by_cases hn : n = 0
  · subst hn
    rfl
  · split
    · next hz => exact absurd (Prod.mk.inj (Option.some.inj hz)).1 (toDigits_ne_zero_cons hn _)
    · rfl

theorem number?_of_digits (n : Nat) (h : Follows rest) :
    number? (Nat.toDigits 10 n ++ rest) = some (.integer n, rest) := by
  -- Which of the cases on a sign is meant follows from this one.
  have hsign (t : List Char) : Nat.toDigits 10 n ++ rest ≠ '-' :: t := by
    intro ht
    cases hs : Nat.toDigits 10 n with
    | nil => exact absurd hs Nat.toDigits_ne_nil
    | cons c ds =>
      have hc : c.isDigit = true :=
        Nat.isDigit_of_mem_toDigits (by decide) (by decide) (hs ▸ List.mem_cons_self)
      rw [hs] at ht
      rw [(List.cons.inj ht).1] at hc
      exact absurd hc (by decide)
  unfold number?
  simp [whole?_toDigits n h, h.fraction?, h.exponent?, Text.numeral_toDigits]

theorem number?_of_sign (h₀ : n ≠ 0) (h : Follows rest) :
    number? ('-' :: Nat.toDigits 10 n ++ rest) = some (.integer (-n), rest) := by
  have hn : Nat.toDigits 10 n ≠ ['0'] := toDigits_ne_zero_cons h₀ []
  unfold number?
  simp [whole?_toDigits n h, h.fraction?, h.exponent?, Text.numeral_toDigits, hn]

theorem number?_decimal (z : Int) (h : Follows rest) :
    number? (Text.decimal z ++ rest) = some (.integer z, rest) := by
  unfold Text.decimal
  split
  · next hz =>
    have he : (-z.natAbs : Int) = z := by omega
    rw [number?_of_sign (by omega) h, he]
  · next hz =>
    have he : (z.natAbs : Int) = z := by omega
    rw [number?_of_digits _ h, he]

theorem value?_number (hc : c = '-' ∨ c.isDigit = true) (fuel : Nat) (s : List Char) :
    value? (fuel + 1) (c :: s) = number? (c :: s) := by
  have hne (d : Char) (hd : d ≠ '-') (hn : d.isDigit = false) : c ≠ d := by
    rintro rfl
    rw [hn] at hc
    exact hc.elim hd nofun
  have hb : isBlank c = false := by
    unfold isBlank
    simp [hne ' ' (by decide) rfl, hne '\n' (by decide) rfl, hne '\t' (by decide) rfl,
      hne '\r' (by decide) rfl]
  have hq := hne '"' (by decide) rfl
  have hl := hne '[' (by decide) rfl
  have ho := hne '\x7b' (by decide) rfl
  have hnull := hne 'n' (by decide) rfl
  have htrue := hne 't' (by decide) rfl
  have hfalse := hne 'f' (by decide) rfl
  rw [value?, skip_of_not_blank hb]
  split <;> simp_all

theorem value?_decimal (z : Int) (fuel : Nat) (h : Follows rest) :
    value? (fuel + 1) (Text.decimal z ++ rest) = some (.integer z, rest) := by
  rw [← number?_decimal z h]
  unfold Text.decimal
  split
  · exact value?_number (.inl rfl) _ _
  · cases hs : Nat.toDigits 10 z.natAbs with
    | nil => exact absurd hs Nat.toDigits_ne_nil
    | cons c ds =>
      exact value?_number (.inr (Nat.isDigit_of_mem_toDigits (by decide) (by decide)
        (hs ▸ List.mem_cons_self))) _ _

/-! ### Values -/

/-- A value that holds no fraction. -/
inductive Value.Whole : Value → Prop
  | null : Whole .null
  | bool (b : Bool) : Whole (.bool b)
  | integer (n : Int) : Whole (.integer n)
  | text (s : String) : Whole (.text s)
  | broken : Whole .broken
  | array {vs : List Value} (h : ∀ v ∈ vs, v.Whole) : Whole (.array vs)
  | object {ms : List (Option String × Value)} (h : ∀ m ∈ ms, m.2.Whole) : Whole (.object ms)

/-- At any level and in front of anything that can follow, the value is read from its text. Fuel
that exceeds the length of the text is enough. -/
def Value.Legible (v : Value) : Prop :=
  ∀ depth fuel rest, (v.write depth).length ≤ fuel → Follows rest →
    value? (fuel + 1) (v.write depth ++ rest) = some (v, rest)

/-- What comes behind one of several items. -/
theorem follows_writeItems (depth : Nat) (vs : List Value) (outer : Nat) (s : List Char) :
    Follows (writeItems depth vs ++ (newLine outer ++ s)) := by
  cases vs with
  | nil =>
    rw [writeItems]
    exact .line _
  | cons v vs =>
    rw [writeItems]
    exact .comma _

theorem follows_writeMembers (depth : Nat) (ms : List (Option String × Value)) (outer : Nat)
    (s : List Char) : Follows (writeMembers depth ms ++ (newLine outer ++ s)) := by
  cases ms with
  | nil =>
    rw [writeMembers]
    exact .line _
  | cons m ms =>
    rw [writeMembers]
    exact .comma _

theorem value?_newLine (depth fuel : Nat) (s : List Char) :
    value? fuel (newLine depth ++ s) = value? fuel s :=
  value?_skip fuel (skip_newLine depth s)

theorem value?_blank (fuel : Nat) (s : List Char) : value? fuel (' ' :: s) = value? fuel s :=
  value?_skip fuel rfl

theorem items?_last {v : Value} (hv : value? fuel s = some (v, t)) (ht : skip t = ']' :: rest) :
    items? (fuel + 1) s = some ([v], rest) := by
  simp [hv, ht]

theorem items?_more {v : Value} {vs : List Value} (hv : value? fuel s = some (v, t))
    (ht : skip t = ',' :: u) (hu : items? fuel u = some (vs, rest)) :
    items? (fuel + 1) s = some (v :: vs, rest) := by
  simp [hv, ht, hu]

/-- A key and the colon behind it, in front of a value. -/
theorem skip_writeKey (depth : Nat) (k : Option String) (s : List Char) :
    skip (newLine depth ++ (writeKey k ++ s)) = '"' :: (keyBody k ++ ':' :: ' ' :: s) := by
  rw [skip_newLine, writeKey_eq, List.cons_append, skip_of_not_blank rfl, List.append_assoc]
  rfl

theorem members?_last (depth : Nat) (k : Option String) {v : Value}
    (hv : value? fuel s = some (v, t)) (ht : skip t = '\x7d' :: rest) :
    members? (fuel + 1) (newLine depth ++ (writeKey k ++ s)) = some ([(k, v)], rest) := by
  have hs : value? fuel (' ' :: s) = some (v, t) := (value?_blank fuel s).trans hv
  simp [skip_writeKey, literal?_keyBody, skip_of_not_blank, isBlank, hs, ht]

theorem members?_more (depth : Nat) (k : Option String) {v : Value}
    {ms : List (Option String × Value)} (hv : value? fuel s = some (v, t))
    (ht : skip t = ',' :: u) (hu : members? fuel u = some (ms, rest)) :
    members? (fuel + 1) (newLine depth ++ (writeKey k ++ s)) = some ((k, v) :: ms, rest) := by
  have hs : value? fuel (' ' :: s) = some (v, t) := (value?_blank fuel s).trans hv
  simp [skip_writeKey, literal?_keyBody, skip_of_not_blank, isBlank, hs, ht, hu]

/-- No item begins with the bracket that ends an array. -/
theorem items?_bracket (fuel : Nat) (h : skip s = ']' :: t) : items? fuel s = none := by
  have hv (fuel : Nat) : value? fuel s = none := by
    cases fuel with
    | zero => rfl
    | succ fuel =>
      rw [value?, h]
      rfl
  cases fuel with
  | zero => rfl
  | succ fuel => rw [items?, hv]

theorem members?_brace (fuel : Nat) (h : skip s = '\x7d' :: t) : members? fuel s = none := by
  cases fuel with
  | zero => rfl
  | succ fuel =>
    rw [members?, h]
    rfl

theorem value?_items {vs : List Value} (h : items? fuel s = some (vs, rest)) :
    value? (fuel + 1) ('[' :: s) = some (.array vs, rest) := by
  -- The array is not the empty one, which decides between the cases behind its bracket.
  have hs (t : List Char) : skip s ≠ ']' :: t := by
    intro ht
    rw [items?_bracket fuel ht] at h
    cases h
  simp [skip_of_not_blank, isBlank, h]

theorem value?_members {ms : List (Option String × Value)}
    (h : members? fuel s = some (ms, rest)) :
    value? (fuel + 1) ('\x7b' :: s) = some (.object ms, rest) := by
  have hs (t : List Char) : skip s ≠ '\x7d' :: t := by
    intro ht
    rw [members?_brace fuel ht] at h
    cases h
  simp [skip_of_not_blank, isBlank, h]

/-- The items of an array, each on a line of its own, from behind the opening bracket. -/
theorem items?_write {v : Value} {vs : List Value} (hv : v.Legible) (hvs : ∀ w ∈ vs, w.Legible)
    (depth outer fuel : Nat) (rest : List Char)
    (hf : (v.write depth).length + (writeItems depth vs).length ≤ fuel) :
    items? (fuel + 2) (newLine depth ++ (v.write depth ++ (writeItems depth vs ++ (newLine outer ++
      ']' :: rest)))) = some (v :: vs, rest) := by
  induction vs generalizing v fuel with
  | nil =>
    have hread := hv depth fuel _ (by omega) (follows_writeItems depth [] outer (']' :: rest))
    exact items?_last ((value?_newLine ..).trans hread) (skip_newLine outer _)
  | cons w vs ih =>
    have hw : (writeItems depth (w :: vs)).length =
        (newLine depth).length + (w.write depth).length + (writeItems depth vs).length + 1 := by
      rw [writeItems]
      simp only [List.length_cons, List.length_append]
    obtain ⟨fuel, rfl⟩ := Nat.exists_eq_add_one_of_ne_zero (n := fuel) (by omega)
    have hread := hv depth (fuel + 1) _ (by omega)
      (follows_writeItems depth (w :: vs) outer (']' :: rest))
    have hrest := ih (hvs w List.mem_cons_self) (fun x hx => hvs x (List.mem_cons_of_mem _ hx)) fuel
      (by omega)
    refine items?_more ((value?_newLine ..).trans hread) ?_ hrest
    rw [writeItems, List.cons_append, skip_of_not_blank rfl]
    simp only [List.append_assoc]

theorem members?_write {m : Option String × Value} {ms : List (Option String × Value)}
    (hm : m.2.Legible) (hms : ∀ m ∈ ms, m.2.Legible) (depth outer fuel : Nat) (rest : List Char)
    (hf : (m.2.write depth).length + (writeMembers depth ms).length ≤ fuel) :
    members? (fuel + 2) (newLine depth ++ (writeKey m.1 ++ (m.2.write depth ++
      (writeMembers depth ms ++ (newLine outer ++ '\x7d' :: rest))))) = some (m :: ms, rest) := by
  induction ms generalizing m fuel with
  | nil =>
    have hread := hm depth fuel _ (by omega) (follows_writeMembers depth [] outer ('\x7d' :: rest))
    exact members?_last depth m.1 hread (skip_newLine outer _)
  | cons w ms ih =>
    have hw : (writeMembers depth (w :: ms)).length = (newLine depth).length +
        (writeKey w.1).length + (w.2.write depth).length + (writeMembers depth ms).length + 1 := by
      rw [writeMembers]
      simp only [List.length_cons, List.length_append]
    obtain ⟨fuel, rfl⟩ := Nat.exists_eq_add_one_of_ne_zero (n := fuel) (by omega)
    have hread := hm depth (fuel + 1) _ (by omega)
      (follows_writeMembers depth (w :: ms) outer ('\x7d' :: rest))
    have hrest := ih (hms w List.mem_cons_self) (fun x hx => hms x (List.mem_cons_of_mem _ hx)) fuel
      (by omega)
    refine members?_more depth m.1 hread ?_ hrest
    rw [writeMembers, List.cons_append, skip_of_not_blank rfl]
    simp only [List.append_assoc]

theorem legible_array {vs : List Value} (h : ∀ v ∈ vs, v.Legible) : (Value.array vs).Legible := by
  intro depth fuel rest hf _
  cases vs with
  | nil =>
    simp [skip, isBlank]
  | cons v vs =>
    have hw : (Value.array (v :: vs)).write depth ++ rest = '[' :: (newLine (depth + 1) ++
        (v.write (depth + 1) ++ (writeItems (depth + 1) vs ++
          (newLine depth ++ ']' :: rest)))) := by
      simp
    have hl := congrArg List.length hw
    simp only [List.length_cons, List.length_append] at hl
    obtain ⟨fuel, rfl⟩ : ∃ n, fuel = n + 2 := ⟨fuel - 2, by omega⟩
    rw [hw]
    exact value?_items (items?_write (h v List.mem_cons_self)
      (fun w hw => h w (List.mem_cons_of_mem _ hw)) (depth + 1) depth fuel rest (by omega))

theorem legible_object {ms : List (Option String × Value)} (h : ∀ m ∈ ms, m.2.Legible) :
    (Value.object ms).Legible := by
  intro depth fuel rest hf _
  cases ms with
  | nil =>
    simp [skip, isBlank]
  | cons m ms =>
    have hw : (Value.object (m :: ms)).write depth ++ rest = '\x7b' :: (newLine (depth + 1) ++
        (writeKey m.1 ++ (m.2.write (depth + 1) ++ (writeMembers (depth + 1) ms ++
          (newLine depth ++ '\x7d' :: rest))))) := by
      simp
    have hl := congrArg List.length hw
    simp only [List.length_cons, List.length_append] at hl
    obtain ⟨fuel, rfl⟩ : ∃ n, fuel = n + 2 := ⟨fuel - 2, by omega⟩
    rw [hw]
    exact value?_members (members?_write (h m List.mem_cons_self)
      (fun w hw => h w (List.mem_cons_of_mem _ hw)) (depth + 1) depth fuel rest (by omega))

theorem legible_integer (n : Int) : (Value.integer n).Legible := by
  intro _ fuel rest _ hr
  rw [Value.write, Text.toList_toString_int]
  exact value?_decimal n fuel hr

theorem legible_text (s : String) : (Value.text s).Legible := by
  intro _ fuel rest _ _
  rw [Value.write, literal, List.cons_append, List.append_assoc, value?, skip_of_not_blank rfl]
  change (literal? (s.toList.flatMap escape ++ '"' :: rest)).map _ = _
  rw [literal?_escape]
  rfl

theorem legible_broken : Value.broken.Legible := by
  intro _ fuel rest _ _
  rw [Value.write, value?, show brokenLiteral = '"' :: keyBody none from rfl, List.cons_append,
    skip_of_not_blank rfl]
  change (literal? (keyBody none ++ rest)).map _ = _
  rw [literal?_keyBody]
  rfl

theorem legible_null : Value.null.Legible := by
  intro _ fuel rest _ _
  rw [Value.write]
  rfl

theorem legible_bool (b : Bool) : (Value.bool b).Legible := by
  intro _ fuel rest _ _
  rw [Value.write]
  cases b <;> rfl

theorem Value.Whole.legible {v : Value} (h : v.Whole) : v.Legible := by
  induction h with
  | null => exact legible_null
  | bool b => exact legible_bool b
  | integer n => exact legible_integer n
  | text s => exact legible_text s
  | broken => exact legible_broken
  | array _ ih => exact legible_array ih
  | object _ ih => exact legible_object ih

/-- A value without fractions is read from its text. -/
theorem read?_toText {v : Value} (h : v.Whole) : read? v.toText = some v := by
  have hread := h.legible 0 (2 * (v.write 0).length + 1) [] (by omega) .nil
  rw [List.append_nil] at hread
  unfold read? Value.toText
  rw [String.toList_ofList]
  dsimp only
  rw [hread]
  rfl

end Minicomputer.Json
