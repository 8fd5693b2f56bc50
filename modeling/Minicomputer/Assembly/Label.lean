import Minicomputer.Memory

/-!
# Labels

Names for places in a program. A label is bound to an element of the program before the element has
an address, and no name is bound twice.
-/

set_option autoImplicit false

namespace Minicomputer.Assembly

inductive LabelTarget where
  | instruction (index : Nat)
  | data (index : Nat)
  | address (a : Word)
  deriving DecidableEq, Repr

/-- The newest binding comes first. -/
structure LabelTable where
  entries : List (String × LabelTarget)
  deriving DecidableEq

namespace LabelTable

def frameBufferName : String := "FRAME_BUFFER"

def builtIn : LabelTable := ⟨[(frameBufferName, .address (UInt16.ofNat frameBuffer))]⟩

instance : Inhabited LabelTable := ⟨builtIn⟩

def target? (t : LabelTable) (name : String) : Option LabelTarget := t.entries.lookup name

def contains (t : LabelTable) (name : String) : Bool := (t.target? name).isSome

/-- Binds a name that is free. -/
def define? (t : LabelTable) (name : String) (target : LabelTarget) : Option LabelTable :=
  if t.contains name then none else some ⟨(name, target) :: t.entries⟩

/-- The address of every label, where `locate` gives that of an element. -/
def addresses (t : LabelTable) (locate : LabelTarget → Int) : List (String × Int) :=
  t.entries.map fun (name, target) =>
    match target with
    | .address a => (name, (a.toNat : Int))
    | other => (name, locate other)

theorem target?_define? {t u : LabelTable} {name : String} {target : LabelTarget}
    (h : t.define? name target = some u) (other : String) :
    u.target? other = if other = name then some target else t.target? other := by
  unfold define? at h
  split at h
  · cases h
  · cases h
    simp only [target?, List.lookup_cons]
    by_cases e : other = name
    · simp [e]
    · simp [e, beq_false_of_ne e]

theorem define?_eq_none_iff (t : LabelTable) (name : String) (target : LabelTarget) :
    t.define? name target = none ↔ t.contains name = true := by
  unfold define?
  split <;> simp_all

end LabelTable

end Minicomputer.Assembly
