import Minicomputer.Word

/-!
# Memory

4096 bytes. Words are stored high byte first, at even and odd addresses alike. An access outside
the range is a fault and changes nothing.
-/

set_option autoImplicit false

namespace Minicomputer

def memorySize : Nat := 4096

/-- The first byte of the part that holds the picture on display. -/
def frameBuffer : Nat := 0x0C00

inductive MemoryFault where
  | outOfRange (address : Int)
  | imageTooLarge (size available : Nat)
  deriving DecidableEq, Repr

def MemoryFault.message : MemoryFault → String
  | outOfRange address =>
    "memory address " ++ toString address ++ " out of range (0 to " ++ toString (memorySize - 1) ++ ")"
  | imageTooLarge size available =>
    "program size " ++ toString size ++ " exceeds available space " ++ toString available

/-- The character of a byte: code points below 256. -/
def Byte.char (b : Byte) : Char := Char.ofNat b.toNat

@[ext] structure Memory where
  bytes : Vector Byte 4096
  deriving DecidableEq

namespace Memory

def zero : Memory := ⟨Vector.replicate 4096 0⟩

instance : Inhabited Memory := ⟨zero⟩

-- The bound is compared with a natural number. A comparison of integers unfolds, inside larger
-- terms, to one subtraction of the bound after the other.
def index : Int → Except MemoryFault (Fin 4096)
  | .ofNat n => if h : n < 4096 then .ok ⟨n, h⟩ else .error (.outOfRange n)
  | .negSucc n => .error (.outOfRange (.negSucc n))

def readByte (m : Memory) (address : Int) : Except MemoryFault Byte := do
  let i ← index address
  return m.bytes[i]

def writeByte (m : Memory) (address : Int) (b : Byte) : Except MemoryFault Memory := do
  let i ← index address
  return ⟨m.bytes.set i.val b i.isLt⟩

def readWord (m : Memory) (address : Int) : Except MemoryFault Word := do
  let high ← m.readByte address
  let low ← m.readByte (address + 1)
  return Word.ofBytes high low

/-- Both bytes are in range before either is written; the second one is looked at first. -/
def writeWord (m : Memory) (address : Int) (w : Word) : Except MemoryFault Memory := do
  let _ ← index (address + 1)
  let m ← m.writeByte address w.high
  m.writeByte (address + 1) w.low

def place (m : Memory) (start : Nat) : List Byte → Memory
  | [] => m
  | b :: image => place ⟨m.bytes.setIfInBounds start b⟩ (start + 1) image

def loadImage (m : Memory) (start : Nat) (image : List Byte) : Except MemoryFault Memory :=
  if start + image.length > memorySize then
    .error (.imageTooLarge image.length (memorySize - start))
  else .ok (m.place start image)

/-- The bytes of a range, cut at the end of memory. -/
def dump (m : Memory) (start count : Nat) : List Byte := (m.bytes.toList.drop start).take count

/-- The text up to the next NUL or the end of memory, one character a byte. -/
def readText (m : Memory) (address : Int) : Except MemoryFault String := do
  let i ← index address
  return String.ofList (((m.bytes.toList.drop i.val).takeWhile (· != 0)).map Byte.char)

def text (m : Memory) : String :=
  "Memory \x7b non_zero_bytes: " ++ toString (m.bytes.toList.countP (· != 0)) ++ ", total_bytes: " ++
    toString memorySize ++ " \x7d"

theorem index_eq (address : Int) : index address =
    if h : 0 ≤ address ∧ address < 4096 then .ok ⟨address.toNat, by omega⟩
    else .error (.outOfRange address) := by
  cases address with
  | ofNat n =>
    have hn : Int.ofNat n = (n : Int) := rfl
    by_cases h : n < 4096
    · rw [index, dif_pos h, dif_pos (by omega)]
      rfl
    · rw [index, dif_neg h, dif_neg (by omega)]
      rfl
  | negSucc n =>
    rw [index, dif_neg (by omega)]

theorem index_of_fin (i : Fin 4096) : index i.val = .ok i := by
  have h : (0 : Int) ≤ i.val ∧ (i.val : Int) < 4096 := by omega
  rw [index_eq, dif_pos h]
  exact congrArg Except.ok (Fin.ext (Int.toNat_natCast i.val))

theorem readByte_of_fin (m : Memory) (i : Fin 4096) : m.readByte i.val = .ok m.bytes[i] := by
  rw [readByte, index_of_fin]
  rfl

theorem readByte_eq_error_iff {m : Memory} {address : Int} {fault : MemoryFault} :
    m.readByte address = .error fault ↔
      ¬(0 ≤ address ∧ address < 4096) ∧ fault = .outOfRange address := by
  unfold readByte
  rw [index_eq]
  split <;> simp_all [bind, Except.bind, pure, Except.pure, eq_comm]

theorem index_eq_ok_iff {address : Int} {i : Fin 4096} :
    index address = .ok i ↔ address = i.val := by
  rw [index_eq]
  split
  · next h =>
    constructor
    · intro e
      have : (⟨address.toNat, by omega⟩ : Fin 4096) = i := Except.ok.inj e
      subst this
      simp only
      omega
    · intro e
      exact congrArg Except.ok (Fin.ext (by simp only; omega))
  · next h =>
    constructor
    · intro e
      cases e
    · intro e
      omega

theorem writeByte_eq_ok_iff {m n : Memory} {address : Int} {b : Byte} :
    m.writeByte address b = .ok n ↔
      ∃ i : Fin 4096, address = i.val ∧ n = ⟨m.bytes.set i.val b i.isLt⟩ := by
  unfold writeByte
  cases h : index address with
  | error e =>
    simp only [bind, Except.bind, reduceCtorEq, false_iff, not_exists, not_and]
    intro i e
    rw [e, index_of_fin] at h
    cases h
  | ok i =>
    have hi := index_eq_ok_iff.mp h
    simp only [bind, Except.bind, pure, Except.pure, Except.ok.injEq]
    constructor
    · intro e
      exact ⟨i, hi, e.symm⟩
    · rintro ⟨j, hj, rfl⟩
      have : i = j := Fin.ext (by omega)
      rw [this]

/-- A stored byte is read back, and all others stay as they are. -/
theorem readByte_of_writeByte {m n : Memory} {address : Int} {b : Byte}
    (h : m.writeByte address b = .ok n) (other : Int) :
    n.readByte other = if other = address then .ok b else m.readByte other := by
  obtain ⟨i, rfl, rfl⟩ := writeByte_eq_ok_iff.mp h
  unfold readByte
  cases hj : index other with
  | error e =>
    have : other ≠ i.val := by
      intro e
      rw [e, index_of_fin] at hj
      cases hj
    simp [bind, Except.bind, this]
  | ok j =>
    have hj := index_eq_ok_iff.mp hj
    subst hj
    simp only [bind, Except.bind, pure, Except.pure, Fin.getElem_fin, Vector.getElem_set]
    by_cases e : i.val = j.val
    · simp [e]
    · have : ¬ ((j.val : Int) = i.val) := by omega
      simp [e, this]

theorem getElem_place (m : Memory) (start : Nat) (image : List Byte) (i : Nat) (h : i < 4096) :
    (m.place start image).bytes[i] =
      if start ≤ i then (image[i - start]?).getD m.bytes[i] else m.bytes[i] := by
  induction image generalizing m start with
  | nil => simp [place]
  | cons b image ih =>
    rw [place, ih]
    by_cases e : start = i
    · subst e
      have hn : ¬ start + 1 ≤ start := by omega
      simp [hn]
    · have hs : start + 1 ≤ i ↔ start ≤ i := by omega
      have hb : (m.bytes.setIfInBounds start b)[i] = m.bytes[i] :=
        Vector.getElem_setIfInBounds_ne h e
      rw [hb]
      by_cases l : start ≤ i
      · have hi : i - start = (i - (start + 1)) + 1 := by omega
        simp only [hs, l, if_true, hi, List.getElem?_cons_succ]
      · simp only [hs, l, if_false]

end Memory

end Minicomputer
