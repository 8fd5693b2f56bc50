import Minicomputer.Instruction.Basic

/-!
# Instruction words

An instruction is one word, and some carry a second word of data. The top nibble of the first word
gives the family:

* `0` system calls, moves and constants, `1` arithmetic, `2` stack, `3` tests,
* `4` to `7` loads and stores at an address in registers,
* `8` loads and stores at an address in the second word,
* `9` jumps to an address in a register, `12` to `15` jumps to an address in the word.

Families `10` and `11` hold no instruction.
-/

set_option autoImplicit false

namespace Minicomputer.Instruction

def nib (r : Register) : Nat := r.index.val

def maxJumpTarget : Nat := 4095

/-- The first word and, for long instructions, the second. -/
def words : Instruction → Word × Option Word
  | sys call => (Word.ofNibbles 0 0 (call.toNat / 16) call.toNat, none)
  | mv target source => (Word.ofNibbles 0 1 (nib target) (nib source), none)
  | inc target amount => (Word.ofNibbles 0 2 (nib target) amount.toNat, none)
  | dec target amount => (Word.ofNibbles 0 3 (nib target) amount.toNat, none)
  | seti target value => (Word.ofNibbles 0 4 (nib target) value.toNat, none)
  | mcp source target size => (Word.ofNibbles 0 5 (nib source) (nib target), some size)
  | debug index => (Word.ofNibbles 0 8 (index.toNat / 16) index.toNat, none)
  | nop => (Word.ofNibbles 0 15 15 15, none)
  | arith op target source =>
      (Word.ofNibbles 1 op.code (nib target) (if op.isUnary then 0 else nib source), none)
  | arithImm op target value =>
      (Word.ofNibbles 1 ArithOp.immediateCode (nib target) op.code, some value)
  | push source stack => (Word.ofNibbles 2 StackOp.pushCode (nib source) (nib stack), none)
  | pop target stack => (Word.ofNibbles 2 StackOp.popCode (nib target) (nib stack), none)
  | rearrange op stack => (Word.ofNibbles 2 op.code 0 (nib stack), none)
  | sop op stack => (Word.ofNibbles 2 StackOp.arithCode op.code (nib stack), none)
  | pushImm value stack =>
      (Word.ofNibbles 2 StackOp.pushImmediateCode 0 (nib stack), some value)
  | test op lhs rhs => (Word.ofNibbles 3 op.code (nib lhs) (nib rhs), none)
  | testImm op lhs value =>
      (Word.ofNibbles 3 (op.code + Comparison.immediateBit) (nib lhs) value.toNat, none)
  | access op reg none address => (Word.ofNibbles 8 op.code (nib reg) 0, some address)
  | access op reg (some offset) address =>
      (Word.ofNibbles 8 op.offsetCode (nib reg) (nib offset), some address)
  | indexed op reg base offset =>
      (Word.ofNibbles (4 + op.code) (nib reg) (nib base) (nib (offset.getD .pc)), none)
  | jumpReg reg => (Word.ofNibbles 9 0 0 (nib reg), none)
  | jump kind target =>
      (Word.ofNibbles (12 + kind.code) (target.toNat / 256) (target.toNat / 16) target.toNat, none)

/-- The bytes of an instruction, high byte first in each word. -/
def encode (i : Instruction) : List Byte :=
  match i.words with
  | (first, none) => first.bytes
  | (first, some second) => first.bytes ++ second.bytes

/-- Whether a second word belongs to an instruction that starts with this one. -/
def isLong (w : Word) : Bool :=
  w.toNat / 4096 == 8 || w.toNat / 256 == 0x1F || w.toNat / 256 == 0x2F || w.toNat / 256 == 0x05

def reg (w : Word) (i : Fin 4) : Register := .ofNibble (w.nibble i)

/-- The instruction in a word. Only long instructions look at `data`. -/
def decode (w data : Word) : Option Instruction :=
  match w.nibble 3 with
  | 0 =>
    match w.nibble 2 with
    | 0 => some (sys w.low)
    | 1 => some (mv (reg w 1) (reg w 0))
    | 2 => some (inc (reg w 1) (UInt8.ofNat (w.nibble 0)))
    | 3 => some (dec (reg w 1) (UInt8.ofNat (w.nibble 0)))
    | 4 => some (seti (reg w 1) (UInt8.ofNat (w.nibble 0)))
    | 5 => some (mcp (reg w 1) (reg w 0) data)
    | 8 => some (debug w.low)
    | 15 => some nop
    | _ => none
  | 1 =>
    if w.nibble 2 = ArithOp.immediateCode then
      (ArithOp.ofCode? (w.nibble 0)).map fun op => arithImm op (reg w 1) data
    else
      (ArithOp.ofCode? (w.nibble 2)).map fun op =>
        arith op (reg w 1) (if op.isUnary then reg w 1 else reg w 0)
  | 2 =>
    match w.nibble 2 with
    | 0 => some (push (reg w 1) (reg w 0))
    | 1 => some (pop (reg w 1) (reg w 0))
    | 7 => (ArithOp.ofCode? (w.nibble 1)).map fun op => sop op (reg w 0)
    | 15 => some (pushImm data (reg w 0))
    | n => (StackOp.ofCode? n).map fun op => rearrange op (reg w 0)
  | 3 =>
    (Comparison.ofCode? (w.nibble 2)).map fun (op, immediate) =>
      if immediate then testImm op (reg w 1) (UInt8.ofNat (w.nibble 0))
      else test op (reg w 1) (reg w 0)
  | 8 =>
    (AccessOp.ofCode? (w.nibble 2)).map fun (op, withOffset) =>
      access op (reg w 1) (if withOffset then some (reg w 0) else none) data
  | 9 => some (jumpReg (reg w 0))
  | n =>
    if n < 8 then
      some (indexed (.ofCode n) (reg w 2) (reg w 1)
        (if reg w 0 = .pc then none else some (reg w 0)))
    else if n < 12 then none
    else some (jump (.ofCode n) (UInt16.ofNat (w.toNat % 4096)))

theorem encode_length (i : Instruction) : i.encode.length = i.size := by
  cases i with
  | access op reg offset address => cases offset <;> rfl
  | _ => rfl

end Minicomputer.Instruction
