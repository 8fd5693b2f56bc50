import Minicomputer.Instruction.Operation
import Minicomputer.Word

/-!
# Arithmetic

Operations on words wrap at sixteen bits. Division truncates and the remainder has the sign of the
dividend; a shift by sixteen or more leaves nothing.
-/

set_option autoImplicit false

namespace Minicomputer.ArithOp

/-- There is no result exactly for a division or remainder by zero. -/
def apply (op : ArithOp) (lhs rhs : Word) : Option Word :=
  match op with
  | add => some (lhs + rhs)
  | sub => some (lhs - rhs)
  | mul => some (lhs * rhs)
  | div => if rhs = 0 then none else some (Word.ofInt (lhs.signed.tdiv rhs.signed))
  | mod => if rhs = 0 then none else some (Word.ofInt (lhs.signed.tmod rhs.signed))
  | and => some (lhs &&& rhs)
  | or => some (lhs ||| rhs)
  | xor => some (lhs ^^^ rhs)
  | shl => some (if rhs.toNat < 16 then lhs <<< rhs else 0)
  | shr => some (if rhs.toNat < 16 then lhs >>> rhs else 0)
  | min => some (if lhs.signed ≤ rhs.signed then lhs else rhs)
  | max => some (if lhs.signed ≤ rhs.signed then rhs else lhs)
  | not => some (~~~lhs)
  | lnot => some (if lhs = 0 then 1 else 0)
  | neg => some (-lhs)

theorem apply_eq_none_iff (op : ArithOp) (lhs rhs : Word) :
    op.apply lhs rhs = none ↔ (op = div ∨ op = mod) ∧ rhs = 0 := by
  cases op <;> simp [apply]

end Minicomputer.ArithOp
