import Mathlib
import Minicomputer.Machine.Basic

/-!
# Images in memory

A program that has been loaded stands in memory byte for byte, its code from address zero and its
data behind it, and zeros follow. What is read of memory is a part of this list of bytes.
-/

set_option autoImplicit false

namespace Minicomputer

namespace Memory

variable {m : Memory}

theorem toList_zero : zero.bytes.toList = List.replicate 4096 0 := Vector.toList_replicate

theorem toList_place (m : Memory) {start : Nat} {image : List Byte}
    (h : start + image.length ≤ 4096) :
    (m.place start image).bytes.toList =
      m.bytes.toList.take start ++ (image ++ m.bytes.toList.drop (start + image.length)) := by
  refine List.ext_getElem ?_ fun i hi _ => ?_
  · simp
    omega
  · have hi : i < 4096 := by simpa using hi
    rw [Vector.getElem_toList, getElem_place m start image i hi]
    have hs : min start 4096 = start := by omega
    simp only [List.getElem_append, List.length_take, Vector.length_toList, List.getElem_take,
      List.getElem_drop, Vector.getElem_toList, hs]
    by_cases hl : start ≤ i
    · rw [if_pos hl, dif_neg (by omega)]
      by_cases hr : i - start < image.length
      · rw [dif_pos hr, List.getElem?_eq_getElem hr, Option.getD_some]
      · have hj : start + image.length + (i - start - image.length) = i := by omega
        rw [dif_neg hr, List.getElem?_eq_none (by omega), Option.getD_none]
        simp only [hj]
    · rw [if_neg hl, dif_pos (by omega)]

theorem toList_place_zero {image : List Byte} (h : image.length ≤ memorySize) :
    (zero.place 0 image).bytes.toList =
      image ++ List.replicate (memorySize - image.length) 0 := by
  have hmax : memorySize = 4096 := rfl
  have hfits : 0 + image.length ≤ 4096 := by omega
  rw [toList_place _ hfits, toList_zero, List.take_zero, List.nil_append, Nat.zero_add,
    List.drop_replicate, hmax]

/-- What of memory is read, where its bytes are known. -/
theorem readByte_of_toList {front back : List Byte} {b : Byte}
    (h : m.bytes.toList = front ++ b :: back) : m.readByte front.length = .ok b := by
  have hlength : front.length < 4096 := by
    have hl := congrArg List.length h
    simp only [Vector.length_toList, List.length_append, List.length_cons] at hl
    omega
  have hb : m.bytes[front.length] = b := by
    have hl : front.length < m.bytes.toList.length := by
      rw [Vector.length_toList]
      exact hlength
    rw [← Vector.getElem_toList hl, List.getElem_of_eq h]
    simp
  have hread := m.readByte_of_fin ⟨front.length, hlength⟩
  rw [hread]
  exact congrArg Except.ok hb

theorem readWord_of_toList {front back : List Byte} {high low : Byte}
    (h : m.bytes.toList = front ++ high :: low :: back) :
    m.readWord front.length = .ok (Word.ofBytes high low) := by
  have hhigh := readByte_of_toList h
  have hlow : m.readByte ((front.length : Int) + 1) = .ok low := by
    have hcut : m.bytes.toList = (front ++ [high]) ++ low :: back := by
      rw [h]
      simp
    have hl := readByte_of_toList hcut
    rw [List.length_append] at hl
    exact hl
  unfold readWord
  rw [hhigh]
  change (do let low ← m.readByte ((front.length : Int) + 1); pure (Word.ofBytes high low)) = _
  rw [hlow]
  rfl

theorem readText_of_toList {front text back : List Byte}
    (h : m.bytes.toList = front ++ (text ++ 0 :: back)) (ht : ∀ b ∈ text, b ≠ 0) :
    m.readText front.length = .ok (String.ofList (text.map Byte.char)) := by
  have hlength : front.length < 4096 := by
    have hl := congrArg List.length h
    simp only [Vector.length_toList, List.length_append, List.length_cons] at hl
    omega
  have htake : (text ++ 0 :: back).takeWhile (· != 0) = text := by
    rw [List.takeWhile_append_of_pos fun b hb => bne_iff_ne.mpr (ht b hb)]
    simp
  unfold readText
  rw [index_of_fin ⟨front.length, hlength⟩]
  change Except.ok (String.ofList (((m.bytes.toList.drop front.length).takeWhile _).map _)) = _
  rw [h, List.drop_left, htake]

end Memory

namespace Machine

variable {σ : Type} (S : System σ) {p : Program}

/-- What loading makes of a machine where there is room for the program. -/
theorem load_of_fits (m : Machine σ) (h : p.imageSize ≤ memorySize) :
    m.load S p = (.ok (), { m.reset S with
      memory := (Memory.zero.place 0 p.code).place p.code.length p.data
      registers := (((m.reset S).registers.set .cb (UInt16.ofNat p.code.length - 1)).set .db
        (UInt16.ofNat p.imageSize - 1)).set .bp (UInt16.ofNat p.imageSize)
      debugInfo := p.debugInfo }) := by
  have hsize : p.imageSize = p.code.length + p.data.length := rfl
  have hmemory : (m.reset S).memory = .zero := memory_setStatus ..
  unfold load Memory.loadImage
  dsimp only
  rw [if_neg (by omega), hmemory]
  dsimp only
  rw [if_neg (by omega)]
  rfl

/-- A program that has been loaded is all that memory holds. -/
theorem toList_load (m : Machine σ) (h : p.imageSize ≤ memorySize) :
    (m.load S p).2.memory.bytes.toList =
      p.code ++ (p.data ++ List.replicate (memorySize - p.imageSize) 0) := by
  have hsize : p.imageSize = p.code.length + p.data.length := rfl
  have hmax : memorySize = 4096 := rfl
  have hc : p.code.length ≤ memorySize := by omega
  have hd : p.code.length + p.data.length ≤ 4096 := by omega
  have hrest : memorySize - p.code.length - p.data.length = memorySize - p.imageSize := by omega
  rw [load_of_fits S m h]
  dsimp only
  rw [Memory.toList_place _ hd, Memory.toList_place_zero hc, List.take_left, List.drop_append,
    List.drop_eq_nil_of_le (Nat.le_add_right ..), List.nil_append, Nat.add_sub_cancel_left,
    List.drop_replicate, hrest]

end Machine
end Minicomputer
