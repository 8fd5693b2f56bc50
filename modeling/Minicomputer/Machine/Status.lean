/-!
# Status

What a machine is doing.
-/

set_option autoImplicit false

namespace Minicomputer

inductive Status where
  /-- Loaded or paused. -/
  | ready
  | executing
  | finished
  /-- A fault has stopped the machine until the next reset. -/
  | permanentError
  | waiting
  /-- Stopped in front of an instruction where the user wants to stop. -/
  | breakpoint
  deriving DecidableEq, Repr, Inhabited

namespace Status

/-- Whether instructions may be executed from here. -/
def isResumable : Status → Bool
  | ready | executing | breakpoint => true
  | _ => false

def name : Status → String
  | ready => "Ready"
  | executing => "Executing"
  | finished => "Finished"
  | permanentError => "PermanentError"
  | waiting => "Waiting"
  | breakpoint => "Breakpoint"

end Status

end Minicomputer
