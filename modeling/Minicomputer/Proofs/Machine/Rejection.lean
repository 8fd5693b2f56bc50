import Minicomputer.Machine.Execute
import Minicomputer.Proofs.Machine.Image

/-!
# Programs that are rejected

A program that is too large is not loaded. The two parts of its image are stored one after the
other, each behind a check of its own: code that is too large is refused before anything is stored,
but code that fits alone stays in memory when the data behind it is refused.
-/

set_option autoImplicit false

namespace Minicomputer

namespace Memory

/-- An image leaves memory empty only where it is empty itself. -/
theorem place_zero_eq_zero_iff {image : List Byte} (h : image.length ≤ memorySize) :
    zero.place 0 image = zero ↔ ∀ b ∈ image, b = 0 := by
  have hmax : memorySize = 4096 := rfl
  have hsplit : List.replicate 4096 (0 : Byte) =
      List.replicate image.length 0 ++ List.replicate (memorySize - image.length) 0 := by
    rw [List.replicate_append_replicate]
    congr 1
    omega
  rw [Memory.ext_iff, ← Vector.toList_inj, toList_place_zero h, toList_zero, hsplit,
    List.append_cancel_right_eq, List.eq_replicate_iff]
  exact and_iff_right rfl

end Memory

namespace Machine

variable {σ : Type} (S : System σ) {p : Program}

/-- A machine in which nothing is loaded. -/
structure Blank (m : Machine σ) : Prop where
  memory : m.memory = .zero
  registers : m.registers = initialRegisters
  status : m.status = .ready
  cycles : m.cycles = 0
  fault : m.fault = none
  debugInfo : m.debugInfo = none

theorem blank_reset (m : Machine σ) : (m.reset S).Blank where
  memory := memory_setStatus ..
  registers := registers_setStatus ..
  status := status_setStatus ..
  cycles := by simp only [reset, setStatus]; split <;> rfl
  fault := by simp only [reset, setStatus]; split <;> rfl
  debugInfo := by simp only [reset, setStatus]; split <;> rfl

/-- Code that does not fit alone is refused before anything is stored. -/
theorem load_of_large_code (m : Machine σ) (h : memorySize < p.code.length) :
    m.load S p =
      (.error (.memory (.imageTooLarge p.code.length memorySize)), m.reset S) := by
  have hlarge : 0 + p.code.length > memorySize := by omega
  unfold load Memory.loadImage
  dsimp only
  rw [if_pos hlarge]
  rfl

/-- Data that does not fit is refused when the code has been stored. -/
theorem load_of_large_data (m : Machine σ) (hc : p.code.length ≤ memorySize)
    (h : memorySize < p.imageSize) :
    m.load S p =
      (.error (.memory (.imageTooLarge p.data.length (memorySize - p.code.length))),
        { m.reset S with memory := Memory.zero.place 0 p.code }) := by
  have hfits : ¬ 0 + p.code.length > memorySize := by omega
  have hlarge : p.code.length + p.data.length > memorySize := h
  unfold load Memory.loadImage
  dsimp only
  rw [if_neg hfits, (blank_reset S m).memory]
  dsimp only
  rw [if_pos hlarge]

theorem eq_reset_iff (m : Machine σ) (memory : Memory) :
    { m.reset S with memory } = m.reset S ↔ memory = .zero := by
  constructor
  · intro h
    have hm : memory = (m.reset S).memory := congrArg Machine.memory h
    rw [hm, (blank_reset S m).memory]
  · rintro rfl
    rw [← (blank_reset S m).memory]

/-- Loading succeeds exactly where the image fits in memory. Where it fails, the machine is as a
reset leaves it but for its memory, in which the code is left if it fits alone: so it is just as
the reset leaves it exactly if the code does not fit alone or says nothing but zeros. -/
theorem load_rejects (m : Machine σ) (p : Program) :
    ((m.load S p).1 = .ok () ↔ p.imageSize ≤ memorySize) ∧
      (m.reset S).Blank ∧
      (memorySize < p.imageSize →
        (∃ size available, (m.load S p).1 = .error (.memory (.imageTooLarge size available))) ∧
        (∃ memory, (m.load S p).2 = { m.reset S with memory } ∧
          memory.bytes.toList =
            if memorySize < p.code.length then List.replicate memorySize 0
            else p.code ++ List.replicate (memorySize - p.code.length) 0) ∧
        ((m.load S p).2 = m.reset S ↔ memorySize < p.code.length ∨ ∀ b ∈ p.code, b = 0)) := by
  have hmemory := (blank_reset S m).memory
  by_cases hfits : p.imageSize ≤ memorySize
  · refine ⟨?_, blank_reset S m, fun h => absurd hfits (by omega)⟩
    rw [load_of_fits S m hfits]
    exact iff_of_true rfl hfits
  have hlarge : memorySize < p.imageSize := by omega
  by_cases hcode : memorySize < p.code.length
  · rw [load_of_large_code S m hcode]
    refine ⟨iff_of_false nofun hfits, blank_reset S m, fun _ => ⟨⟨_, _, rfl⟩, ?_, ?_⟩⟩
    · refine ⟨.zero, ((eq_reset_iff S m .zero).mpr rfl).symm, ?_⟩
      rw [if_pos hcode]
      exact Memory.toList_zero
    · exact iff_of_true rfl (.inl hcode)
  · have hle : p.code.length ≤ memorySize := by omega
    rw [load_of_large_data S m hle hlarge]
    refine ⟨iff_of_false nofun hfits, blank_reset S m, fun _ => ⟨⟨_, _, rfl⟩, ?_, ?_⟩⟩
    · refine ⟨_, rfl, ?_⟩
      rw [if_neg hcode]
      exact Memory.toList_place_zero hle
    · rw [eq_reset_iff, Memory.place_zero_eq_zero_iff hle]
      exact (or_iff_right hcode).symm

/-- An instruction without effect, and data for which there is no room behind it. -/
def nopAndPages : Program := .plain [0x0F, 0xFF] (List.replicate 4096 0) "pages"

/-- The rejected program is executed all the same. -/
theorem load_rejects_nopAndPages :
    let silent : System Unit := ⟨fun _ s => pure (.ok .proceed, s), id⟩
    memorySize < nopAndPages.imageSize ∧
      ((new ()).load silent nopAndPages).1 = .error (.memory (.imageTooLarge 4096 4094)) ∧
      ((new ()).load silent nopAndPages).2 ≠ (new ()).reset silent ∧
      (((new ()).load silent nopAndPages).2.step silent).1 = .ok .nop := by
  intro silent
  have hdata : nopAndPages.data.length = 4096 := List.length_replicate
  have hlarge : memorySize < nopAndPages.imageSize := by
    rw [Program.imageSize, hdata]
    decide
  have hcode : nopAndPages.code.length ≤ memorySize := by decide
  obtain ⟨-, -, hrejected⟩ := load_rejects silent (new ()) nopAndPages
  obtain ⟨-, -, hreset⟩ := hrejected hlarge
  refine ⟨hlarge, ?_, ?_, ?_⟩
  · rw [load_of_large_data silent _ hcode hlarge, hdata]
    rfl
  · rw [ne_eq, hreset, not_or]
    exact ⟨by decide, by decide⟩
  · rw [load_of_large_data silent _ hcode hlarge]
    decide +kernel

end Machine
end Minicomputer
