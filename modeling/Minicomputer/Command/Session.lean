import Minicomputer.Command.Arguments
import Minicomputer.Instruction.Text
import Minicomputer.Monitor.Basic

/-!
# Sessions

A program that is run for a user at a terminal: in rounds, each of which lasts until the program
ends, the cycles are used up, or the program wants a line of input.
-/

set_option autoImplicit false

namespace Minicomputer.Command

inductive Verdict where
  | finished
  | faulted (pc : Word) (fault : Option Fault)
  /-- The program wants input and there is no more. -/
  | inputClosed
  | outOfCycles (limit : Nat)
  /-- A round that did nothing and would be followed by others like it. -/
  | idle
  deriving DecidableEq

structure Session where
  machine : Machine Monitor
  remaining : Nat
  limit : Nat
  tracing : Bool

namespace Session

def start (monitor : Monitor) (options : RunOptions) (p : Program) : Except Fault Session :=
  match (Machine.new monitor).load Monitor.system p with
  | (.error e, _) => .error e
  | (.ok (), m) =>
    let m := { m with speed := options.speed }
    .ok {
      machine := match options.input with
        | some s => m.provideInput s
        | none => m
      remaining := options.maxCycles
      limit := options.maxCycles
      tracing := options.trace }

private def binary (n : Nat) : String :=
  String.ofList (Text.padLeft '0' 2 (Nat.toDigits 2 n))

def traceLine (pc : Word) (i : Instruction) (m : Machine Monitor) : String :=
  let value (r : Register) := toString (m.registers.get r).signed
  Text.hex 4 pc.toNat ++ ": " ++ Text.padRight 20 i.text ++ " t0=" ++ value .t0 ++ " sp=" ++
    value .sp ++ " flags=" ++ binary (m.registers.get .flags).toNat

/-- At most `limit` single steps with a line for each that succeeds, in front of which stand the
lines of earlier ones, the newest first. -/
def traced (executed : Nat) (lines : List String) :
    (limit : Nat) → Machine Monitor → Nat × List String × Machine Monitor
  | 0, m => (executed, lines.reverse, m)
  | n + 1, m =>
    if m.status.isResumable then
      match m.step Monitor.system with
      | (.ok i, m') => traced (executed + 1) (traceLine m.pc i m' :: lines) n m'
      | (.error _, m') => (executed + 1, lines.reverse, m')
    else (executed, lines.reverse, m)

/-- Runs at most `limit` cycles. Gives their number and the lines of a trace. -/
def execute (tracing : Bool) (limit : Nat) (m : Machine Monitor) :
    Nat × List String × Machine Monitor :=
  if tracing then traced 0 [] limit m
  else
    let (executed, m) := m.runLimited Monitor.system limit
    (executed, [], m)

inductive Next where
  | wantsLine
  | again
  | ended (v : Verdict)

def round (s : Session) : Next × List String × Session :=
  let (executed, lines, machine) := execute s.tracing s.remaining s.machine
  let s := { s with machine, remaining := s.remaining - executed }
  let next := match machine.status with
    | .finished => Next.ended .finished
    | .permanentError => .ended (.faulted machine.pc machine.fault)
    | .waiting => .wantsLine
    | _ =>
      if s.remaining = 0 then .ended (.outOfCycles s.limit)
      else if executed = 0 then .ended .idle
      else .again
  (next, lines, s)

def answer (s : Session) (line : String) : Session :=
  { s with machine := (s.machine.provideInput line).pause }

theorem round_remaining_lt {s t : Session} {lines : List String}
    (h : s.round = (.again, lines, t)) : t.remaining < s.remaining := by
  unfold round at h
  generalize execute s.tracing s.remaining s.machine = e at h
  obtain ⟨executed, found, machine⟩ := e
  simp only [Prod.mk.injEq] at h
  obtain ⟨hn, -, rfl⟩ := h
  revert hn
  split <;> simp only [reduceCtorEq, false_implies]
  split
  · simp
  · split
    · simp
    · intro; simp only at *; omega

/-- A whole session with lines of input, and the lines of its trace. -/
def attend (s : Session) (input : List String) : Verdict × List String × Session :=
  match _h : s.round, input with
  | (.ended v, lines, s), _ => (v, lines, s)
  | (.again, lines, t), input =>
    let (v, more, t) := attend t input
    (v, lines ++ more, t)
  | (.wantsLine, lines, s), [] => (.inputClosed, lines, s)
  | (.wantsLine, lines, s), line :: input =>
    let (v, more, s) := attend (s.answer line) input
    (v, lines ++ more, s)
termination_by (input.length, s.remaining)
decreasing_by
  · exact Prod.Lex.right _ (round_remaining_lt (by assumption))
  · exact Prod.Lex.left _ _ (by simp)

end Session

/-- Text as lines, each with its line feed; the last one may lack it. -/
def linesOf (s : String) : List String :=
  ((s.toList.splitBy fun a _ => a != '\n').map String.ofList)

end Minicomputer.Command
