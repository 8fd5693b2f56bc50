import Minicomputer.Debugger
import Minicomputer.Proofs.Instruction.Legibility
import Minicomputer.Proofs.Listing.Fetch
import Minicomputer.Proofs.Machine.Footprint

/-!
# The line of a step

After a step the debugger shows what stands in memory where the instruction stood. That is the
instruction which was executed as long as it has not written over itself.
-/

set_option autoImplicit false

namespace Minicomputer

open Instruction (Leads front?)

namespace Listing

variable {bytes : List Byte} {i : Instruction}

/-- Where there is room for an instruction, its text is shown exactly if it stands there. -/
theorem front_eq_text_iff (hi : i.Canonical) (hroom : i.size ≤ bytes.length) :
    (front bytes).1 = i.text ↔ front? bytes = some i := by
  have hs := i.size_eq_two_or_four
  match bytes, hroom with
  | [], hroom | [_], hroom =>
    simp only [List.length_nil, List.length_singleton] at hroom
    omega
  | high :: low :: rest, hroom =>
    cases hl : Instruction.isLong (Word.ofBytes high low) with
    | false =>
      have hw : Leads (high :: low :: rest) (Word.ofBytes high low) 0 := .short hl
      rw [front_of_leads hw, Instruction.front?_of_leads hw]
      exact Instruction.textOfWords_eq_text_iff hi _ _
    | true =>
      match rest, hroom with
      | dataHigh :: dataLow :: rest, _ =>
        have hw : Leads (high :: low :: dataHigh :: dataLow :: rest) (Word.ofBytes high low)
          (Word.ofBytes dataHigh dataLow) := .long hl
        rw [front_of_leads hw, Instruction.front?_of_leads hw]
        exact Instruction.textOfWords_eq_text_iff hi _ _
      | [], hroom | [_], hroom =>
        -- A long word without its data shows a long instruction, for which there is no room.
        simp only [List.length_cons, List.length_nil] at hroom
        simp only [front, front?, hl, ↓reduceIte, reduceCtorEq, iff_false]
        intro ht
        have hlong := Instruction.isLong_of_decode
          ((Instruction.textOfWords_eq_text_iff hi _ _).mp ht)
        rw [hl] at hlong
        have hsize : i.size = 4 := beq_iff_eq.mp hlong.symm
        omega

end Listing

namespace Debugger

open Minicomputer.Machine Minicomputer.Monitor

variable {d : Debugger} {i : Instruction} {n : Machine Monitor}

theorem step_of_executing (hstep : d.machine.step system = (.ok i, n)) (hn : n.status = .executing) :
    d.step = { d with
      machine := n
      notice := .stepped d.machine.pc
        (Listing.textAt n.memory.bytes.toList d.machine.pc.toNat).1 } := by
  have hresumable : d.machine.status.isResumable = true := by
    by_contra hr
    rw [Machine.step_of_not_isResumable system (Bool.eq_false_of_not_eq_true hr)] at hstep
    cases hstep
  unfold step
  rw [if_pos hresumable, hstep]
  unfold report
  dsimp only
  rw [hn]

/-- The line of a step shows what is found at the address of the executed instruction afterwards. It
shows that instruction exactly if it still stands there, so it does after all steps that leave its
bytes alone. -/
theorem step_line (hstep : d.machine.step system = (.ok i, n)) (hn : n.status = .executing) :
    d.step.notice.text = "PC=" ++ Text.hex 4 d.machine.pc.toNat ++ ": " ++
        (Listing.textAt n.memory.bytes.toList d.machine.pc.toNat).1 ∧
      (d.step.notice.text = "PC=" ++ Text.hex 4 d.machine.pc.toNat ++ ": " ++ i.text ↔
        front? (n.memory.bytes.toList.drop d.machine.pc.toNat) = some i) ∧
      (n.memory.dump d.machine.pc.toNat i.size = d.machine.memory.dump d.machine.pc.toNat i.size →
        d.step.notice.text = "PC=" ++ Text.hex 4 d.machine.pc.toNat ++ ": " ++ i.text) := by
  have hnotice : d.step.notice.text = "PC=" ++ Text.hex 4 d.machine.pc.toNat ++ ": " ++
      (Listing.textAt n.memory.bytes.toList d.machine.pc.toNat).1 := by
    rw [step_of_executing hstep hn]
    rfl
  obtain ⟨word, data, k, hp, hd, -, -⟩ := Action.executed_of_step system hstep
  have hleads : Leads (d.machine.memory.bytes.toList.drop d.machine.pc.toNat) word data := by
    have h := leads_of_presents hp
    rw [setStatus_eq] at h
    exact h
  have hsize : (if Instruction.isLong word then 4 else 2) = i.size := by
    rw [Instruction.isLong_of_decode hd]
    obtain hs | hs := i.size_eq_two_or_four <;> rw [hs] <;> rfl
  have hroom : i.size ≤ (n.memory.bytes.toList.drop d.machine.pc.toNat).length := by
    have h := hleads.length_ge
    rw [hsize, List.length_drop, Vector.length_toList] at h
    rwa [List.length_drop, Vector.length_toList]
  have hiff : d.step.notice.text = "PC=" ++ Text.hex 4 d.machine.pc.toNat ++ ": " ++ i.text ↔
      front? (n.memory.bytes.toList.drop d.machine.pc.toNat) = some i := by
    rw [hnotice, String.append_right_inj]
    exact Listing.front_eq_text_iff (Instruction.canonical_of_decode hd) hroom
  refine ⟨hnotice, hiff, fun hbytes => hiff.mpr ?_⟩
  have hstays : Leads (n.memory.bytes.toList.drop d.machine.pc.toNat) word data := by
    apply hleads.of_take_eq
    rw [hsize]
    exact hbytes
  rw [Instruction.front?_of_leads hstays]
  exact hd

/-- A store over the instruction that makes it. -/
def overwriting : Debugger := new (ofSeed 1) (.plain [0x84, 0x00, 0x00, 0x00] [] "store")

/-- The store is executed, and the line shows what it has stored. -/
theorem step_line_overwriting :
    ∃ n, overwriting.machine.step system = (.ok (.access .sw .t0 none 0), n) ∧
      n.status = .executing ∧ overwriting.step.notice.text = "PC=0000: sys exit" ∧
      overwriting.step.notice.text ≠ "PC=0000: " ++ (Instruction.access .sw .t0 none 0).text := by
  have hexecuted : (overwriting.machine.step system).1 = .ok (.access .sw .t0 none 0) := by
    decide +kernel
  have hstatus : (overwriting.machine.step system).2.status = .executing := by decide +kernel
  have hshown : (Listing.textAt (overwriting.machine.step system).2.memory.bytes.toList 0).1 =
      "sys exit" := by decide +kernel
  have hpc : overwriting.machine.pc.toNat = 0 := by decide +kernel
  rcases hs : overwriting.machine.step system with ⟨r, n⟩
  rw [hs] at hexecuted hstatus hshown
  obtain rfl : r = _ := hexecuted
  obtain ⟨hline, -, -⟩ := step_line hs hstatus
  rw [hpc, hshown] at hline
  exact ⟨n, rfl, hstatus, hline, by rw [hline]; decide +kernel⟩

end Debugger
end Minicomputer
