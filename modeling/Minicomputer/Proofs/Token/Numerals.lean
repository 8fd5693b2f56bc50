import Minicomputer.Proofs.Token.Lines

/-!
# Numerals

The numbers that can be written in a source, of any length: digits behind a minus or not, digits in
base sixteen in either case, and binary digits with gaps. Each of them is one token, which has the
value that its digits denote if its base has room for that value, and none otherwise.
-/

set_option autoImplicit false

namespace Minicomputer

namespace Text

/-- Digits from the most significant one on denote the number that Mathlib's `Nat.ofDigits` gives them
in the other direction. -/
theorem numeral_map {α : Type} (base : Nat) {write : α → Char} {digit : α → Nat}
    (h : ∀ a, digitValue (write a) = digit a) (ds : List α) :
    numeral base (ds.map write) = Nat.ofDigits base (ds.map digit).reverse := by
  induction ds using List.reverseRecOn with
  | nil => rfl
  | append_singleton ds d ih =>
    rw [List.map_append, List.map_singleton, numeral_append, ih, h, List.map_append,
      List.map_singleton, List.reverse_concat, Nat.ofDigits_cons]
    ring

end Text

namespace Token

/-- A number as it is written. -/
inductive Numeral where
  | decimal (negative : Bool) (digits : List (Fin 10))
  /-- Each digit with whether it is a capital, if it is a letter. -/
  | hex (digits : List (Fin 16 × Bool))
  /-- Digits and underscores. -/
  | binary (places : List (Option (Fin 2)))
  deriving Repr

namespace Numeral

def base : Numeral → Nat
  | decimal .. => 10
  | hex _ => 16
  | binary _ => 2

/-- The digits, most significant first. -/
def digits : Numeral → List Nat
  | decimal _ ds => ds.map (·.val)
  | hex ds => ds.map (·.1.val)
  | binary places => places.reduceOption.map (·.val)

def isNegative : Numeral → Bool
  | decimal negative _ => negative
  | _ => false

def magnitude (n : Numeral) : Nat := Nat.ofDigits n.base n.digits.reverse

/-- The number that is denoted. -/
def value (n : Numeral) : Int := if n.isNegative then -(n.magnitude : Int) else n.magnitude

/-- The least value that there is room for. -/
def low : Numeral → Int
  | decimal .. => -2 ^ 31
  | _ => 0

/-- The greatest value that there is room for. -/
def high : Numeral → Int
  | decimal .. => 2 ^ 31 - 1
  | _ => 2 ^ 16 - 1

def decimalDigit (d : Fin 10) : Char := Nat.digitChar d

def hexDigit (d : Fin 16 × Bool) : Char :=
  if d.2 then (Nat.digitChar d.1).toUpper else Nat.digitChar d.1

def place (d? : Option (Fin 2)) : Char := d?.elim '_' fun d => Nat.digitChar d

def chars : Numeral → List Char
  | decimal true ds => '-' :: ds.map decimalDigit
  | decimal false ds => ds.map decimalDigit
  | hex ds => '0' :: 'x' :: ds.map hexDigit
  | binary places => '0' :: 'b' :: places.map place

def text (n : Numeral) : String := String.ofList n.chars

def kind : Numeral → TokenKind
  | decimal .. => .integer
  | hex _ => .hex
  | binary _ => .binary

def piece (n : Numeral) : Piece := ⟨n.kind, n.text⟩

/-! ### Digits as characters -/

theorem isDigit_decimalDigit (d : Fin 10) : (decimalDigit d).isDigit = true := by
  revert d
  decide

theorem digitValue_decimalDigit (d : Fin 10) : Text.digitValue (decimalDigit d) = d := by
  revert d
  decide

theorem isHexDigit_hexDigit (d : Fin 16 × Bool) : isHexDigit (hexDigit d) = true := by
  revert d
  decide

theorem digitValue_hexDigit (d : Fin 16 × Bool) : Text.digitValue (hexDigit d) = d.1 := by
  revert d
  decide

theorem isBinaryDigit_place (d? : Option (Fin 2)) : isBinaryDigit (place d?) = true := by
  revert d?
  decide

theorem digitValue_place (d : Fin 2) : Text.digitValue (place (some d)) = d := by
  revert d
  decide

theorem filter_places (places : List (Option (Fin 2))) :
    (places.map place).filter (· != '_') = places.reduceOption.map fun d => place (some d) := by
  have hdigit : ∀ d : Fin 2, (place (some d) != '_') = true := by decide
  induction places with
  | nil => rfl
  | cons d? places ih =>
    cases d? with
    | none => simpa [place] using ih
    | some d => simpa [hdigit] using ih

/-! ### Numerals as tokens -/

theorem lexes_piece (n : Numeral) (h : n.digits ≠ []) : Lexes n.piece := by
  have ht : n.text.toList = n.chars := String.toList_ofList
  cases n with
  | decimal negative ds =>
    have hds : ∀ c ∈ ds.map decimalDigit, c.isDigit = true :=
      List.forall_mem_map.mpr fun d _ => isDigit_decimalDigit d
    have hne : ds ≠ [] := fun e => h (by rw [e]; rfl)
    cases negative with
    | true => exact lexes_digits ht (.inr ⟨rfl, by simpa using hne⟩) hds
    | false =>
      obtain ⟨d, ds, rfl⟩ := List.exists_cons_of_ne_nil hne
      rw [List.map_cons, List.forall_mem_cons] at hds
      exact lexes_digits ht (.inl hds.1) hds.2
  | hex ds => exact lexes_hex ht (List.forall_mem_map.mpr fun d _ => isHexDigit_hexDigit d)
  | binary places =>
    exact lexes_binary ht (List.forall_mem_map.mpr fun d? _ => isBinaryDigit_place d?)

theorem pattern?_eq {base n : Nat} {ds : List Char} (hne : ds ≠ [])
    (hn : Text.numeral base ds = n) :
    pattern? base ds = if (0 : Int) ≤ n ∧ (n : Int) ≤ 2 ^ 16 - 1 then some (n : Int) else none := by
  have hempty : ds.isEmpty = false := by simpa using hne
  simp only [pattern?, hempty, hn, Bool.false_or, decide_eq_true_eq]
  by_cases h : 65535 < n
  · rw [if_pos h, if_neg (by omega)]
  · rw [if_neg h, if_pos (by omega)]

theorem signedDecimal?_chars (negative : Bool) {ds : List (Fin 10)} (h : ds ≠ []) :
    Text.signedDecimal? (decimal negative ds).chars = some (decimal negative ds).value := by
  have hds : ∀ c ∈ ds.map decimalDigit, c.isDigit = true :=
    List.forall_mem_map.mpr fun d _ => isDigit_decimalDigit d
  have hne : ds.map decimalDigit ≠ [] := by simpa using h
  have hsize : Text.numeral 10 (ds.map decimalDigit) = (decimal negative ds).magnitude :=
    Text.numeral_map 10 digitValue_decimalDigit ds
  cases negative with
  | true =>
    rw [chars, Text.signedDecimal?_of_minus hne hds, hsize]
    rfl
  | false =>
    rw [chars, Text.signedDecimal?_of_digits hne hds, hsize]
    rfl

/-- A token that is a numeral has the value that is denoted, or none. -/
theorem value?_eq (n : Numeral) (h : n.digits ≠ []) {t : Token} (hkind : t.kind = n.kind)
    (htext : t.text = n.text) :
    t.value? = if n.low ≤ n.value ∧ n.value ≤ n.high then some n.value else none := by
  have ht : t.text.toList = n.chars := by rw [htext, text, String.toList_ofList]
  rw [Token.value?, hkind, ht]
  cases n with
  | decimal negative ds =>
    have hne : ds ≠ [] := fun e => h (by rw [e]; rfl)
    show Text.int32? _ = _
    rw [Text.int32?, signedDecimal?_chars negative hne]
    rfl
  | hex ds =>
    have hne : ds.map hexDigit ≠ [] := by simpa [digits] using h
    exact pattern?_eq hne (Text.numeral_map 16 digitValue_hexDigit ds)
  | binary places =>
    have hne : places.reduceOption.map (fun d => place (some d)) ≠ [] := by
      simpa [digits] using h
    show pattern? 2 ((places.map place).filter (· != '_')) = _
    rw [filter_places]
    exact pattern?_eq hne (Text.numeral_map 2 digitValue_place places.reduceOption)

/-- There is room for every word, signed or not, where it can be written. -/
theorem fits_of_word (n : Numeral) (h : -32768 ≤ n.value ∧ n.value ≤ 65535) :
    n.low ≤ n.value ∧ n.value ≤ n.high := by
  cases n with
  | decimal => exact ⟨by rw [low]; omega, by rw [high]; omega⟩
  | hex ds => exact ⟨Int.natCast_nonneg _, h.2⟩
  | binary places => exact ⟨Int.natCast_nonneg _, h.2⟩

theorem isNumber_of_kind {n : Numeral} {t : Token} (h : t.kind = n.kind) : t.isNumber = true := by
  rw [isNumber, h]
  cases n <;> rfl

end Numeral

end Token

end Minicomputer
