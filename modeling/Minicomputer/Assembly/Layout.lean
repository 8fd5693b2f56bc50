import Minicomputer.Assembly.Draft

/-!
# Layout

The second pass gives every element its address, the statements from zero on and the data behind
them, and so every label.
-/

set_option autoImplicit false

namespace Minicomputer.Assembly

def total : List Nat → Nat
  | [] => 0
  | n :: ns => n + total ns

theorem total_append (xs ys : List Nat) : total (xs ++ ys) = total xs + total ys := by
  induction xs with
  | nil => simp [total]
  | cons n ns ih => simp [total, ih, Nat.add_assoc]

/-- Where elements of given sizes start that lie one behind the other. -/
def offsets (start : Nat) : List Nat → List Nat
  | [] => []
  | n :: ns => start :: offsets (start + n) ns

theorem offsets_length (start : Nat) (sizes : List Nat) :
    (offsets start sizes).length = sizes.length := by
  induction sizes generalizing start with
  | nil => rfl
  | cons n ns ih => simp [offsets, ih]

theorem getElem?_offsets (start : Nat) (sizes : List Nat) (i : Nat) (h : i < sizes.length) :
    (offsets start sizes)[i]? = some (start + total (sizes.take i)) := by
  induction sizes generalizing start i with
  | nil => simp at h
  | cons n ns ih =>
    cases i with
    | zero => rfl
    | succ i =>
      have hi : i < ns.length := by simpa using h
      simp [offsets, total, ih (start + n) i hi, Nat.add_assoc]

/-- The token of the first element that ends behind a limit. -/
def overflow? (limit start : Nat) : List (Token × Nat) → Option Token
  | [] => none
  | (t, n) :: rest => if limit < start + n then some t else overflow? limit (start + n) rest

namespace Draft

def statementSizes (d : Draft) : List Nat := d.statements.toList.map (·.size)

def dataSizes (d : Draft) : List Nat := d.data.toList.map (·.size)

def codeSize (d : Draft) : Nat := total d.statementSizes

def size (d : Draft) : Nat := d.codeSize + total d.dataSizes

/-- The address of a target, where the elements of both segments start at given addresses. -/
def locate (statements data : Array Nat) : LabelTarget → Int
  | .instruction i => statements.getD i 0
  | .data i => data.getD i 0
  | .address a => a.toNat

def addresses (d : Draft) : Addresses :=
  let statements := (offsets 0 d.statementSizes).toArray
  let data := (offsets d.codeSize d.dataSizes).toArray
  d.labels.addresses (locate statements data)

def sizeDiagnostics (d : Draft) : List Diagnostic :=
  let elements := d.statements.toList.map (fun s => (s.anchor, s.size)) ++
    d.data.toList.map (fun e => (e.anchor, e.size))
  match overflow? memorySize 0 elements with
  | some t => [⟨t, .tooLarge d.size memorySize⟩]
  | none => []

/-- All that is wrong with a draft, in the order of the source. -/
def diagnostics (d : Draft) : List Diagnostic :=
  let labels := d.addresses
  Diagnostic.inOrder (
    (d.statements.toList.flatMap fun s => s.diagnostics ++ s.labelDiagnostics labels) ++
    d.data.toList.flatMap (·.diagnostics) ++ d.strays ++ d.sizeDiagnostics)

def code (d : Draft) : List Byte :=
  let labels := d.addresses
  d.statements.toList.flatMap fun s => s.operation.encode labels

def dataBytes (d : Draft) : List Byte := d.data.toList.flatMap (·.value.encode)

end Draft

end Minicomputer.Assembly
