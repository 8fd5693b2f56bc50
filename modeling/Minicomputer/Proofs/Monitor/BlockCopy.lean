import Minicomputer.Proofs.Machine.BlockCopy
import Minicomputer.Proofs.Monitor.Footprint

/-!
# The copy of an instruction and the copy of a call

A program can copy a block with an instruction or with a system call. The instruction has its size
in a word and wraps its addresses. The call has its size in a register, where it may be negative, and
its addresses do not wrap. Neither makes a difference for sizes that are not negative.
-/

set_option autoImplicit false

namespace Minicomputer.Monitor

open Minicomputer.Action
open Memory (room)

variable {σ : Type} {m : Machine Monitor} {s : Monitor}

/-- The loop of the call, with its addresses and its size. -/
def moveBlock (f : RegisterFile) : Action σ Unit :=
  copy (fun i => (f.get .a0).toNat + i) (fun i => (f.get .a1).toNat + i) 0
    (f.get .a2).signed.toNat

theorem run_serve_memcpy (clock : Nat) (m : Machine σ) :
    (serve clock .memcpy).run m =
      (moveBlock m.registers >>= fun _ => pure Reply.proceed : Action σ Reply).run m := by
  have ha0 : (address .a0).run m = (.ok ((m.registers.get .a0).toNat : Int), m) := rfl
  have ha1 : (address .a1).run m = (.ok ((m.registers.get .a1).toNat : Int), m) := rfl
  have ha2 : (count .a2).run m = (.ok (m.registers.get .a2).signed.toNat, m) := rfl
  rw [serve, run_bind_of_ok ha0, run_bind_of_ok ha1, run_bind_of_ok ha2]
  rfl

theorem copies_moveBlock (m : Machine σ) :
    Copies (m.registers.get .a0).toNat (m.registers.get .a1).toNat
      (m.registers.get .a2).signed.toNat (moveBlock m.registers) m :=
  copies_copy (fun j _ => (Int.natCast_add _ j).symm) (fun j _ => (Int.natCast_add _ j).symm) _ m

/-- The call ends as its loop does. -/
theorem ends_memcpy {r : Except Fault Unit} {memory : Memory} (hs : m.system = some s)
    (h : Ends (moveBlock (σ := Monitor) m.registers) { m with system := none } r memory) :
    Ends (execute system (.sys SystemCall.memcpy.selector)) m r memory := by
  have hcall (k : Machine Monitor) : system.call SystemCall.memcpy.selector s k =
      ((((serve s.clock .memcpy).run k).1, s), ((serve s.clock .memcpy).run k).2) :=
    call_selector (c := .memcpy) (by decide) s k
  unfold Ends at h ⊢
  rw [execute, run_systemCall_of_some system _ hs, hcall, run_serve_memcpy]
  rcases hrun : (moveBlock (σ := Monitor) m.registers).run { m with system := none } with ⟨e | u, n⟩
  · rw [hrun] at h
    rw [run_bind_of_error hrun]
    exact h
  · rw [hrun] at h
    rw [run_bind_of_ok hrun]
    exact h

theorem copies_memcpy (hs : m.system = some s) :
    Copies (m.registers.get .a0).toNat (m.registers.get .a1).toNat
      (m.registers.get .a2).signed.toNat (execute system (.sys SystemCall.memcpy.selector)) m :=
  ends_memcpy hs (copies_moveBlock { m with system := none })

/-- On the same addresses, and for a size that is not negative, the instruction and the call end the
same way with the same memory: what there is room for is copied, and one of the addresses behind it
is the fault. A block in memory is moved as it was, if its target is in memory too and does not begin
behind the first byte of the block. -/
theorem mcp_eq_memcpy (S : System σ) {k : Machine σ} {source target : Register}
    {s t size : Word} (hsystem : m.system.isSome = true) (hmemory : m.memory = k.memory)
    (hsource : k.registers.get source = s) (htarget : k.registers.get target = t)
    (ha0 : m.registers.get .a0 = s) (ha1 : m.registers.get .a1 = t)
    (ha2 : m.registers.get .a2 = size) (hsize : size.toNat ≤ 32767) :
    ∃ r memory, Ends (execute S (.mcp source target size)) k r memory ∧
      Ends (execute system (.sys SystemCall.memcpy.selector)) m r memory ∧
      r = copyOutcome s.toNat t.toNat size.toNat ∧
      memory = k.memory.copied s.toNat t.toNat (min size.toNat (room s.toNat t.toNat)) ∧
      (s.toNat + size.toNat ≤ 4096 → t.toNat + size.toNat ≤ 4096 →
        (t.toNat ≤ s.toNat ∨ s.toNat + size.toNat ≤ t.toNat) →
        r = .ok () ∧
        (∀ j < size.toNat, memory.readByte (t.toNat + j : Nat) =
          k.memory.readByte (s.toNat + j : Nat)) ∧
        ∀ a : Int, a < t.toNat ∨ t.toNat + size.toNat ≤ a →
          memory.readByte a = k.memory.readByte a) := by
  obtain ⟨monitor, hmonitor⟩ := Option.isSome_iff_exists.mp hsystem
  have hinstruction := copies_mcp S source target size k
  rw [hsource, htarget] at hinstruction
  have hcall := copies_memcpy hmonitor
  have hsigned : size.signed.toNat = size.toNat := by
    rw [Word.signed, if_pos (by omega)]
    rfl
  unfold Copies at hcall
  rw [ha0, ha1, ha2, hsigned, hmemory] at hcall
  exact ⟨_, _, hinstruction, hcall, rfl, rfl, copied_block k.memory⟩

/-- A block that moves down by one byte, over itself. -/
def shifting : Machine Monitor :=
  { Machine.new (ofSeed 1) with
    memory := Memory.zero.place 100 [1, 2, 3, 4]
    registers := ((Machine.initialRegisters.set .a0 101).set .a1 100).set .a2 3 }

theorem mcp_eq_memcpy_shifting :
    ∃ memory, Ends (execute system (.mcp .a0 .a1 3)) shifting (.ok ()) memory ∧
      Ends (execute system (.sys SystemCall.memcpy.selector)) shifting (.ok ()) memory ∧
      memory.dump 100 4 = [2, 3, 4, 4] := by
  have ha0 : shifting.registers.get .a0 = 101 := by decide +kernel
  have ha1 : shifting.registers.get .a1 = 100 := by decide +kernel
  have ha2 : shifting.registers.get .a2 = 3 := by decide +kernel
  have hdump : (shifting.memory.copied 101 100 3).dump 100 4 = [2, 3, 4, 4] := by decide +kernel
  obtain ⟨r, memory, hinstruction, hcall, hr, hcopied, hblock⟩ :=
    mcp_eq_memcpy system (k := shifting) rfl rfl ha0 ha1 ha0 ha1 ha2 (by decide)
  obtain ⟨rfl, -, -⟩ := hblock (by decide) (by decide) (by decide)
  refine ⟨memory, hinstruction, hcall, ?_⟩
  rw [hcopied]
  exact hdump

end Minicomputer.Monitor
