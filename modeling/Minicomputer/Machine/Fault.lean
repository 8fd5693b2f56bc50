import Minicomputer.Machine.Status
import Minicomputer.Memory
import Minicomputer.Text.Hexadecimal

/-!
# Faults

What can go wrong while a machine runs.
-/

set_option autoImplicit false

namespace Minicomputer

inductive Fault where
  /-- The machine was to execute from a status that does not allow it. -/
  | notRunnable (status : Status)
  | memory (fault : MemoryFault)
  | undecodable (word : Word)
  | divisionByZero
  | systemCall (reason : String)
  deriving DecidableEq, Repr

def invalidInstruction (w : Word) : String := "invalid instruction: " ++ Text.marked 4 w.toNat

def Fault.message : Fault → String
  | notRunnable status => "computer cannot execute from status " ++ status.name
  | memory fault => "memory error: " ++ fault.message
  | undecodable w => "decode error: " ++ invalidInstruction w
  | divisionByZero => "division by zero"
  | systemCall reason => "system call failed: " ++ reason

end Minicomputer
