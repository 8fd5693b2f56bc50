import Minicomputer.Word

/-!
# Registers

Twenty-two registers of one word each. The first sixteen have a nibble as their name inside
instructions; the rest belong to the machine and cannot be named by a program.
-/

set_option autoImplicit false

namespace Minicomputer

inductive Register where
  | t0 | t1 | t2 | t3 | t4 | t5
  | a0 | a1 | a2 | a3
  | rv | ra | fp | sp | bp | pc
  | ir | dr | cb | db | io | flags
  deriving DecidableEq, Repr, Inhabited

namespace Register

def all : List Register :=
  [t0, t1, t2, t3, t4, t5, a0, a1, a2, a3, rv, ra, fp, sp, bp, pc, ir, dr, cb, db, io, flags]

def index : Register → Fin 22
  | t0 => 0 | t1 => 1 | t2 => 2 | t3 => 3 | t4 => 4 | t5 => 5
  | a0 => 6 | a1 => 7 | a2 => 8 | a3 => 9
  | rv => 10 | ra => 11 | fp => 12 | sp => 13 | bp => 14 | pc => 15
  | ir => 16 | dr => 17 | cb => 18 | db => 19 | io => 20 | flags => 21

def ofIndex? (i : Nat) : Option Register := all[i]?

/-- Every nibble names one of the first sixteen registers. -/
def ofNibble (n : Nat) : Register := all.getD (n % 16) t0

def name : Register → String
  | t0 => "t0" | t1 => "t1" | t2 => "t2" | t3 => "t3" | t4 => "t4" | t5 => "t5"
  | a0 => "a0" | a1 => "a1" | a2 => "a2" | a3 => "a3"
  | rv => "rv" | ra => "ra" | fp => "fp" | sp => "sp" | bp => "bp" | pc => "pc"
  | ir => "ir" | dr => "dr" | cb => "cb" | db => "db" | io => "io" | flags => "flags"

/-- Names are recognised in any letter case. -/
def ofName? (s : String) : Option Register := all.find? (·.name == s.toLower)

def isReadable (r : Register) : Bool := r.index.val ≤ pc.index.val

def isWriteable (r : Register) : Bool := r.index.val < pc.index.val

theorem mem_all (r : Register) : r ∈ all := by cases r <;> decide

theorem ofIndex?_index (r : Register) : ofIndex? r.index.val = some r := by cases r <;> rfl

theorem index_injective {r s : Register} (h : r.index = s.index) : r = s := by
  have hr := ofIndex?_index r
  rw [h, ofIndex?_index s] at hr
  exact (Option.some.inj hr).symm

theorem ofNibble_index {r : Register} (h : r.isReadable = true) : ofNibble r.index.val = r := by
  cases r <;> first | rfl | exact absurd h (by decide)

end Register

@[ext] structure RegisterFile where
  slots : Vector Word 22
  deriving DecidableEq

namespace RegisterFile

def zero : RegisterFile := ⟨Vector.replicate 22 0⟩

instance : Inhabited RegisterFile := ⟨zero⟩

def get (f : RegisterFile) (r : Register) : Word := f.slots[r.index]

def set (f : RegisterFile) (r : Register) (w : Word) : RegisterFile :=
  ⟨f.slots.set r.index.val w r.index.isLt⟩

def pc (f : RegisterFile) : Word := f.get .pc

/-- Bit 0 of the flags holds the outcome of the last test or arithmetic result. -/
def testFlag (f : RegisterFile) : Bool := f.get .flags &&& 1 != 0

/-- Bit 1 of the flags is set by a fault. -/
def errorFlag (f : RegisterFile) : Bool := f.get .flags &&& 2 != 0

private def setFlag (f : RegisterFile) (mask : Word) (value : Bool) : RegisterFile :=
  f.set .flags (if value then f.get .flags ||| mask else f.get .flags &&& ~~~mask)

def setTestFlag (f : RegisterFile) (value : Bool) : RegisterFile := f.setFlag 1 value

def setErrorFlag (f : RegisterFile) (value : Bool) : RegisterFile := f.setFlag 2 value

def text (f : RegisterFile) : String :=
  "\x7b" ++ ", ".intercalate
    (Register.all.map fun r => "\"" ++ r.name ++ "\": " ++ toString (f.get r).signed) ++ "\x7d"

@[simp] theorem get_zero (r : Register) : zero.get r = 0 := by
  cases r <;> rfl

@[simp] theorem get_set_self (f : RegisterFile) (r : Register) (w : Word) :
    (f.set r w).get r = w := by
  simp [get, set]

theorem get_set_of_ne (f : RegisterFile) {r s : Register} (w : Word) (h : r ≠ s) :
    (f.set r w).get s = f.get s := by
  have hi : r.index.val ≠ s.index.val := fun e => h (Register.index_injective (Fin.ext e))
  simp [get, set, Vector.getElem_set_ne, hi]

theorem get_set (f : RegisterFile) (r s : Register) (w : Word) :
    (f.set r w).get s = if r = s then w else f.get s := by
  split
  · next h => subst h; exact get_set_self f r w
  · next h => exact get_set_of_ne f w h

theorem get_flags_setTestFlag (f : RegisterFile) (value : Bool) :
    (f.setTestFlag value).get .flags =
      if value then f.get .flags ||| 1 else f.get .flags &&& ~~~1 :=
  get_set_self _ _ _

theorem get_flags_setErrorFlag (f : RegisterFile) (value : Bool) :
    (f.setErrorFlag value).get .flags =
      if value then f.get .flags ||| 2 else f.get .flags &&& ~~~2 :=
  get_set_self _ _ _

end RegisterFile

end Minicomputer
