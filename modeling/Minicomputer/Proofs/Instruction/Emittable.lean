import Minicomputer.SystemCall
import Minicomputer.Proofs.Instruction.Canonical

/-!
# Instructions that assembly text can name

The bounds that the assembler puts on the operands of a statement. They leave out some instructions
that have words of their own, such as one that writes `pc`.
-/

set_option autoImplicit false

namespace Minicomputer

/-- What a load may write and a store may read. -/
def Register.isAccessible (isStore : Bool) : Register → Bool :=
  if isStore then isReadable else isWriteable

theorem Register.readable_of_accessible {isStore : Bool} {r : Register}
    (h : r.isAccessible isStore = true) : r.isReadable = true := by
  cases isStore with
  | true => exact h
  | false => exact readable_of_writeable h

namespace Instruction

/-- The bounds on the operands of a statement. Registers that are written lie below `pc`, those that
are read not above it. -/
def Emittable : Instruction → Prop
  | sys call => (SystemCall.ofSelector? call).isSome
  | mv target source => target.isWriteable ∧ source.isReadable
  | inc target amount | dec target amount => target.isWriteable ∧ amount.toNat ≤ 15
  | seti target value => target.isWriteable ∧ value.toNat ≤ 15
  | mcp source target size => source.isReadable ∧ target.isReadable ∧ size.toNat ≤ 4096
  | debug _ => False
  | nop => True
  | arith op target source =>
    target.isWriteable ∧ source.isReadable ∧ (op.isUnary → source = target)
  | arithImm op target _ => op.isUnary = false ∧ target.isWriteable
  | push source stack => source.isReadable ∧ stack.isWriteable
  | pop target stack => target.isWriteable ∧ stack.isWriteable
  | rearrange _ stack | sop _ stack | pushImm _ stack => stack.isWriteable
  | test _ lhs rhs => lhs.isReadable ∧ rhs.isReadable
  | testImm _ lhs value => lhs.isReadable ∧ value.toNat ≤ 15
  | access op reg offset address =>
    reg.isAccessible op.isStore ∧ (∀ r ∈ offset, r.isReadable) ∧ (op = .li → offset = none) ∧
      (op ≠ .li → address.toNat ≤ 4095)
  | indexed op reg base offset =>
    reg.isAccessible op.isStore ∧ base.isReadable ∧ ∀ r ∈ offset, r.isReadable ∧ r ≠ .pc
  | jumpReg reg => reg.isReadable
  | jump _ target => target.toNat ≤ 4095

instance (i : Instruction) : Decidable i.Emittable := by
  cases i <;> unfold Emittable <;> infer_instance

theorem canonical_of_emittable {i : Instruction} (h : i.Emittable) : i.Canonical := by
  cases i with
  | sys | debug | nop => trivial
  | mv => exact ⟨Register.readable_of_writeable h.1, h.2⟩
  | inc | dec | seti => exact ⟨Register.readable_of_writeable h.1, Nat.lt_succ_of_le h.2⟩
  | mcp => exact ⟨h.2.1, h.1⟩
  | arith => exact ⟨Register.readable_of_writeable h.1, h.2⟩
  | arithImm => exact Register.readable_of_writeable h.2
  | push => exact ⟨h.1, Register.readable_of_writeable h.2⟩
  | pop => exact ⟨Register.readable_of_writeable h.1, Register.readable_of_writeable h.2⟩
  | rearrange | sop | pushImm => exact Register.readable_of_writeable h
  | test => exact h
  | testImm => exact ⟨h.1, Nat.lt_succ_of_le h.2⟩
  | access => exact ⟨Register.readable_of_accessible h.1, h.2.1, h.2.2.1⟩
  | indexed => exact ⟨Register.readable_of_accessible h.1, h.2⟩
  | jumpReg => exact h
  | jump => exact h

end Instruction
end Minicomputer
