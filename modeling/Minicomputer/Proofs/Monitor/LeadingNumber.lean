import Minicomputer.Proofs.Monitor.Formatting
import Minicomputer.Proofs.Token.Words

/-!
# Numbers at the front of a text

A text begins with blanks, with a sign and with digits, each of which may be missing. The call that
reads a number there adds up the digits in thirty-two bits, which wrap again and again where there
are many digits. What is left of them in a word is still the number modulo `2 ^ 16`.
-/

set_option autoImplicit false

namespace Minicomputer.Monitor

open Minicomputer.Action

variable {σ : Type}

/-! ### Readings -/

inductive Sign where
  | absent
  | plus
  | minus
  deriving DecidableEq, Repr

namespace Sign

def chars : Sign → List Char
  | absent => []
  | plus => ['+']
  | minus => ['-']

def apply : Sign → Nat → Int
  | minus, n => -n
  | _, n => n

end Sign

/-- A character that is neither a blank nor a sign. -/
def Solid (c : Char) : Prop := Text.isBlank c = false ∧ c ≠ '-' ∧ c ≠ '+'

/-- A text as leading blanks, at most one sign, digits, and a rest that does not go on with a digit.
All the blanks in front are leading blanks, and a sign behind them is the sign, also where no digit
follows. -/
structure Reading (s : List Char) where
  blanks : List Char
  sign : Sign
  digits : List Char
  rest : List Char
  text : blanks ++ (sign.chars ++ (digits ++ rest)) = s
  blank : ∀ c ∈ blanks, Text.isBlank c = true
  digit : ∀ c ∈ digits, c.isDigit = true
  stops : ∀ c ∈ rest.head?, c.isDigit = false
  exhausted : sign = .absent → digits = [] → ∀ c ∈ rest.head?, Solid c

/-- The number that the sign and the digits denote. No digits denote zero. -/
def Reading.value {s : List Char} (r : Reading s) : Int := r.sign.apply (Text.numeral 10 r.digits)

theorem head?_dropWhile (p : Char → Bool) (s : List Char) :
    ∀ c ∈ (s.dropWhile p).head?, p c = false := by
  intro c hc
  have h := List.head?_dropWhile_not p s
  rw [Option.mem_def.mp hc] at h
  simpa using h

/-- A sign in front of the rest of a text is read as such. -/
theorem nonempty_reading_of_sign {s t : List Char} (sign : Sign)
    (h : s.dropWhile Text.isBlank = sign.chars ++ t)
    (habsent : sign = .absent → ∀ c ∈ t.head?, Solid c) : Nonempty (Reading s) := by
  have hdigits : t.takeWhile Char.isDigit ++ t.dropWhile Char.isDigit = t :=
    List.takeWhile_append_dropWhile
  exact ⟨{
    blanks := s.takeWhile Text.isBlank
    sign := sign
    digits := t.takeWhile Char.isDigit
    rest := t.dropWhile Char.isDigit
    text := by rw [hdigits, ← h, List.takeWhile_append_dropWhile]
    blank := fun c hc => List.mem_takeWhile_imp hc
    digit := fun c hc => List.mem_takeWhile_imp hc
    stops := head?_dropWhile Char.isDigit t
    exhausted := fun hsign hnone => by
      rw [hnone, List.nil_append] at hdigits
      rw [hdigits]
      exact habsent hsign }⟩

theorem nonempty_reading (s : List Char) : Nonempty (Reading s) := by
  have hblank := head?_dropWhile Text.isBlank s
  cases h : s.dropWhile Text.isBlank with
  | nil => exact nonempty_reading_of_sign .absent h fun _ => nofun
  | cons c t =>
    by_cases hminus : c = '-'
    · subst hminus
      exact nonempty_reading_of_sign .minus h nofun
    by_cases hplus : c = '+'
    · subst hplus
      exact nonempty_reading_of_sign .plus h nofun
    rw [h] at hblank
    refine nonempty_reading_of_sign .absent h fun _ d hd => ?_
    obtain rfl : c = d := Option.some.inj hd
    exact ⟨hblank c rfl, hminus, hplus⟩

theorem solid_of_isDigit {c : Char} (h : c.isDigit = true) : Solid c := by
  obtain ⟨hlow, hhigh⟩ := Token.isDigit_bounds h
  refine ⟨Token.isBlank_of_bounds (by omega) (by omega), ?_, ?_⟩ <;>
    exact Token.ne_of_toNat (by simp; omega)

section

variable {s : List Char} (r : Reading s)

/-- Without a sign, a digit follows the leading blanks, or what cannot be read. -/
theorem Reading.solid_of_absent (hsign : r.sign = .absent) :
    ∀ c ∈ (r.digits ++ r.rest).head?, Solid c := by
  intro c hc
  cases hd : r.digits with
  | nil =>
    rw [hd] at hc
    exact r.exhausted hsign hd c hc
  | cons d ds =>
    rw [hd] at hc
    obtain rfl : d = c := Option.some.inj hc
    exact solid_of_isDigit (r.digit d (hd ▸ List.mem_cons_self))

theorem Reading.trimLeft_eq : Text.trimLeft s = r.sign.chars ++ (r.digits ++ r.rest) := by
  have hhead : ∀ c ∈ (r.sign.chars ++ (r.digits ++ r.rest)).head?, Text.isBlank c = false := by
    cases hsign : r.sign with
    | absent => exact fun c hc => (r.solid_of_absent hsign c hc).1
    | plus | minus =>
      rintro c ⟨⟩
      decide
  conv_lhs => rw [← r.text]
  rw [Text.trimLeft, List.dropWhile_append_of_pos r.blank]
  cases hbody : r.sign.chars ++ (r.digits ++ r.rest) with
  | nil => rfl
  | cons c t =>
    rw [hbody] at hhead
    rw [List.dropWhile_cons_of_neg (by simpa using hhead c rfl)]

theorem Reading.takeWhile_eq : (r.digits ++ r.rest).takeWhile Char.isDigit = r.digits := by
  have hrest : r.rest.takeWhile Char.isDigit = [] := by
    cases hr : r.rest with
    | nil => rfl
    | cons c t =>
      have hc : c.isDigit = false := r.stops c (by rw [hr]; rfl)
      rw [List.takeWhile_cons_of_neg (by simp [hc])]
  rw [List.takeWhile_append_of_pos r.digit, hrest, List.append_nil]

theorem splitSign_of_solid {s : List Char} (h : ∀ c ∈ s.head?, Solid c) :
    splitSign s = (false, s) := by
  unfold splitSign
  split
  · exact absurd rfl (h '-' rfl).2.1
  · exact absurd rfl (h '+' rfl).2.2
  · rfl

theorem Reading.splitSign_eq :
    splitSign (r.sign.chars ++ (r.digits ++ r.rest)) =
      (decide (r.sign = .minus), r.digits ++ r.rest) := by
  cases hsign : r.sign with
  | absent => exact splitSign_of_solid (r.solid_of_absent hsign)
  | plus => rfl
  | minus => rfl

/-- The digits are added up, and the sign is heeded at the end. -/
theorem leadingInteger_eq : leadingInteger s =
    (if r.sign = .minus then -accumulate r.digits else accumulate r.digits).toInt16.toUInt16 := by
  unfold leadingInteger
  rw [r.trimLeft_eq, r.splitSign_eq]
  dsimp only
  rw [r.takeWhile_eq]
  simp only [decide_eq_true_eq]

end

/-! ### Digits in thirty-two bits -/

theorem bmod_modEq (x : Int) (n : Nat) : x.bmod n ≡ x [ZMOD n] := Int.bmod_emod

theorem bmod_congr {x y : Int} {n : Nat} (h : x ≡ y [ZMOD n]) : x.bmod n = y.bmod n := by
  rw [← Int.emod_bmod x, ← Int.emod_bmod y, h]

theorem toInt_digit {c : Char} (h : c.isDigit = true) :
    (Int32.ofNat c.toNat - 48).toInt = Text.digitValue c := by
  obtain ⟨hlow, hhigh⟩ := Token.isDigit_bounds h
  have hsub : Int32.ofNat (c.toNat - 48) = Int32.ofNat c.toNat - 48 := Int32.ofNat_sub _ _ hlow
  rw [Text.digitValue_of_isDigit h, ← hsub, Int32.toInt_ofNat_of_lt (by omega)]

/-- However often they wrap, thirty-two bits keep the number modulo `2 ^ 32`. -/
theorem accumulate_modEq (ds : List Char) (h : ∀ c ∈ ds, c.isDigit = true) :
    (accumulate ds).toInt ≡ Text.numeral 10 ds [ZMOD (2 ^ 32 : Nat)] := by
  induction ds using List.reverseRecOn with
  | nil => rfl
  | append_singleton ds c ih =>
    have hds := ih fun d hd => h d (List.mem_append_left _ hd)
    have hc := toInt_digit (h c (by simp))
    have hten : (10 : Int32).toInt = 10 := rfl
    have hstep : accumulate (ds ++ [c]) = accumulate ds * 10 + (Int32.ofNat c.toNat - 48) := by
      simp [accumulate]
    rw [hstep, Text.numeral_append, Int32.toInt_add, Int32.toInt_mul, hc, hten, Nat.cast_add,
      Nat.cast_mul]
    calc (((accumulate ds).toInt * 10).bmod (2 ^ 32) + Text.digitValue c).bmod (2 ^ 32)
        ≡ ((accumulate ds).toInt * 10).bmod (2 ^ 32) + Text.digitValue c [ZMOD (2 ^ 32 : Nat)] :=
          bmod_modEq _ _
      _ ≡ (accumulate ds).toInt * 10 + Text.digitValue c [ZMOD (2 ^ 32 : Nat)] :=
          (bmod_modEq _ _).add_right _
      _ ≡ Text.numeral 10 ds * 10 + Text.digitValue c [ZMOD (2 ^ 32 : Nat)] :=
          (hds.mul_right 10).add_right _

section

variable {s : List Char} (r : Reading s)

theorem Reading.value_modEq :
    (if r.sign = .minus then -accumulate r.digits else accumulate r.digits).toInt ≡
      r.value [ZMOD (2 ^ 32 : Nat)] := by
  have hdigits := accumulate_modEq r.digits r.digit
  unfold Reading.value
  cases r.sign with
  | absent => exact hdigits
  | plus => exact hdigits
  | minus =>
    rw [if_pos rfl, Int32.toInt_neg]
    exact (bmod_modEq _ _).trans hdigits.neg

/-- The word that is read is the number modulo `2 ^ 16`, as a signed one. -/
theorem Reading.signed_leadingInteger : (leadingInteger s).signed = r.value.bmod (2 ^ 16) := by
  have hwide := r.value_modEq
  have hdvd : ((2 ^ 16 : Nat) : Int) ∣ (2 ^ 32 : Nat) := by decide
  rw [leadingInteger_eq r, Word.signed_toUInt16, Int32.toInt_toInt16]
  exact bmod_congr (hwide.of_dvd hdvd)

theorem Reading.leadingInteger_of_no_digits (h : r.digits = []) : leadingInteger s = 0 := by
  have hvalue : r.value = 0 := by
    unfold Reading.value
    rw [h]
    cases r.sign <;> rfl
  rw [← Word.ofInt_signed (leadingInteger s), r.signed_leadingInteger, hvalue]
  rfl

end

/-! ### The call -/

/-- The text that a machine passes. -/
def passedText (m : Machine σ) : List Char := m.memory.charsAt (m.registers.get .a0).toNat

theorem readsAt_passedText (m : Machine σ) :
    ReadsAt [m.registers.get .a0] (leadingInteger (passedText m))
      (do return leadingInteger (← loadText (← address .a0)).toList) m := by
  have haddress : ReadsAt [] ((m.registers.get .a0).toNat : Int) (address .a0) m := rfl
  have h := (readsAt_loadText (m.registers.get .a0)).map
    (fun text => leadingInteger text.toList) (m := m)
  rw [String.toList_ofList] at h
  exact haddress.bind h

theorem serve_atoi_eq (clock : Nat) : (serve clock .atoi : Action σ Reply) =
    (do return leadingInteger (← loadText (← address .a0)).toList) >>= answer := by
  simp only [serve, bind_assoc, pure_bind]

theorem call_atoi_of_lt (s : Monitor) {m : Machine σ} (h : (m.registers.get .a0).toNat < 4096) :
    call SystemCall.atoi.selector s m =
      ((.ok .proceed, s), m.setRegister .rv (leadingInteger (passedText m))) := by
  have hfind : [m.registers.get .a0].find? (4096 ≤ ·.toNat) = none := by simpa using h
  have hread := readsAt_passedText m
  unfold ReadsAt inMemory at hread
  rw [hfind] at hread
  rw [call_selector (by decide), serve_atoi_eq, run_bind_of_ok hread]
  rfl

/-- A text denotes one number, however many digits it has: that of its sign and its digits, where
all the blanks in front are skipped, or zero if there are no digits. The call that reads it gives the
signed word that is congruent to the number modulo `2 ^ 16`. -/
theorem atoi_exact :
    (∀ s : List Char, Nonempty (Reading s) ∧
      (∀ r : Reading s, (leadingInteger s).signed = r.value.bmod (2 ^ 16)) ∧
      ((∀ r : Reading s, r.digits = []) → leadingInteger s = 0)) ∧
    ∀ (s : Monitor) (m : Machine Monitor), (m.registers.get .a0).toNat < 4096 →
      call SystemCall.atoi.selector s m =
        ((.ok .proceed, s), m.setRegister .rv (leadingInteger (passedText m))) ∧
      (m.system = some s → (execute system (.sys SystemCall.atoi.selector)).run m =
        (.ok (), m.setRegister .rv (leadingInteger (passedText m)))) := by
  constructor
  · intro s
    obtain ⟨r⟩ := nonempty_reading s
    exact ⟨⟨r⟩, Reading.signed_leadingInteger, fun h => r.leadingInteger_of_no_digits (h r)⟩
  · intro s m h
    refine ⟨call_atoi_of_lt s h, fun hs => ?_⟩
    rw [run_execute_of_call hs (call_atoi_of_lt s h)]
    cases m
    cases hs
    rfl

/-- A number of more than thirty-two bits. -/
def longNumber : List Char := '\t' :: '-' :: (Nat.toDigits 10 4295032833 ++ ['x'])

/-- A machine that passes a text. -/
def withText (s : List Char) : Machine Monitor :=
  { Machine.new (ofSeed 0) with
    memory := Memory.zero.place 100 (bytesOfText (String.ofList s))
    registers := Machine.initialRegisters.set .a0 100 }

theorem atoi_exact_longNumber :
    (leadingInteger longNumber).signed = -1 ∧
      call SystemCall.atoi.selector (ofSeed 0) (withText longNumber) =
        ((.ok .proceed, ofSeed 0), (withText longNumber).setRegister .rv 0xFFFF) := by
  obtain ⟨hexact, hcall⟩ := atoi_exact
  let r : Reading longNumber := {
    blanks := ['\t']
    sign := .minus
    digits := Nat.toDigits 10 4295032833
    rest := ['x']
    text := rfl
    blank := by simp [Text.isBlank, Text.blankRanges]
    digit := fun c hc => Nat.isDigit_of_mem_toDigits (by decide) (by decide) hc
    stops := by simp
    exhausted := nofun }
  have hvalue : r.value.bmod (2 ^ 16) = -1 := by
    change (-(Text.numeral 10 (Nat.toDigits 10 4295032833) : Int)).bmod (2 ^ 16) = -1
    rw [Text.numeral_toDigits]
    rfl
  have hsigned : (leadingInteger longNumber).signed = -1 := ((hexact longNumber).2.1 r).trans hvalue
  have hword : leadingInteger longNumber = 0xFFFF := by
    rw [← Word.ofInt_signed (leadingInteger _), hsigned]
    rfl
  have htext : passedText (withText longNumber) = longNumber := by decide +kernel
  have hanswer := (hcall (ofSeed 0) (withText longNumber) (by decide +kernel)).1
  rw [htext, hword] at hanswer
  exact ⟨hsigned, hanswer⟩

end Minicomputer.Monitor
