import Minicomputer.Proofs.Machine.Footprint

/-!
# Copies of blocks

A block is copied byte by byte from its front, until one of the two addresses is out of range. How
far that goes hangs on the addresses alone. If the target begins inside the block, behind its first
byte, some bytes are copied over before they are read. Otherwise the target becomes what the block
was.
-/

set_option autoImplicit false

namespace Minicomputer

namespace Memory

/-- The memory after a number of bytes have been copied. -/
def copied (m : Memory) (s t : Nat) : Nat → Memory
  | 0 => m
  | n + 1 => (m.copied s t n).place (t + n) ((m.copied s t n).dump (s + n) 1)

/-- How many bytes there are before one of two addresses is out of range. -/
def room (s t : Nat) : Nat := 4096 - max s t

variable {m : Memory} {s t n : Nat}

theorem readByte_of_lt {a : Nat} (h : a < 4096) : m.readByte a = .ok m.bytes[a] :=
  readByte_of_fin m ⟨a, h⟩

theorem readByte_of_le {a : Nat} (h : 4096 ≤ a) : m.readByte a = .error (.outOfRange a) :=
  readByte_eq_error_iff.mpr ⟨by omega, rfl⟩

theorem writeByte_of_le {a : Nat} (h : 4096 ≤ a) (b : Byte) :
    m.writeByte a b = .error (.outOfRange a) := by
  rw [writeByte, index_eq, dif_neg (by omega)]
  rfl

theorem writeByte_place {a : Nat} (h : a < 4096) (b : Byte) :
    m.writeByte a b = .ok (m.place a [b]) := by
  rw [writeByte_eq_ok_iff]
  refine ⟨⟨a, h⟩, rfl, Memory.ext (Vector.ext fun i hi => ?_)⟩
  rw [place, place, Vector.getElem_setIfInBounds, Vector.getElem_set]

theorem dump_one {a : Nat} (h : a < 4096) : m.dump a 1 = [m.bytes[a]] := by
  have hlength : a < m.bytes.toList.length := by
    rw [Vector.length_toList]
    exact h
  rw [dump, List.take_one_drop_eq_of_lt_length hlength, List.get_eq_getElem, Vector.getElem_toList]

/-- One byte more is written, and all others are left. -/
theorem readByte_copied_succ (hs : s + n < 4096) (ht : t + n < 4096) (a : Int) :
    (m.copied s t (n + 1)).readByte a =
      if a = (t + n : Nat) then (m.copied s t n).readByte (s + n : Nat)
      else (m.copied s t n).readByte a := by
  rw [readByte_of_lt hs, copied, dump_one hs]
  exact readByte_of_writeByte (writeByte_place ht _) a

/-- As long as no byte of the block has been copied over before its turn, the target is what the
block was. -/
theorem readByte_copied (hs : s + n ≤ 4096) (ht : t + n ≤ 4096) (h : t ≤ s ∨ s + n ≤ t) (a : Int) :
    (m.copied s t n).readByte a =
      if t ≤ a ∧ a < t + n then m.readByte (s + (a - t)) else m.readByte a := by
  induction n generalizing a with
  | zero =>
    rw [copied, if_neg]
    omega
  | succ n ih =>
    have hprefix (a : Int) := ih (by omega) (by omega) (by omega) a
    rw [readByte_copied_succ (by omega) (by omega), hprefix, hprefix]
    by_cases ha : a = (t + n : Nat)
    · -- The byte is read where nothing has been written yet.
      have hunread : ¬ ((t : Int) ≤ (s + n : Nat) ∧ ((s + n : Nat) : Int) < t + n) := by omega
      have hsource : ((s + n : Nat) : Int) = s + (a - t) := by omega
      rw [if_pos ha, if_neg hunread, if_pos (by omega), hsource]
    · have hrange : (t ≤ a ∧ a < t + n) ↔ (t ≤ a ∧ a < t + (n + 1 : Nat)) := by omega
      rw [if_neg ha]
      simp only [hrange]

end Memory

open Memory (room)

/-- How a copy ends: an address of the source is looked at before one of the target. -/
def copyOutcome (s t size : Nat) : Except Fault Unit :=
  if size ≤ room s t then .ok ()
  else .error (.memory (.outOfRange
    (if s + room s t < 4096 then t + room s t else s + room s t : Nat)))

/-- A block in memory goes to a place in memory that does not begin behind its first byte. -/
theorem copied_block {s t size : Nat} (m : Memory) (hs : s + size ≤ 4096) (ht : t + size ≤ 4096)
    (h : t ≤ s ∨ s + size ≤ t) :
    copyOutcome s t size = .ok () ∧
      (∀ j < size, (m.copied s t (min size (room s t))).readByte (t + j : Nat) =
        m.readByte (s + j : Nat)) ∧
      ∀ a : Int, a < t ∨ t + size ≤ a →
        (m.copied s t (min size (room s t))).readByte a = m.readByte a := by
  have hroom : size ≤ room s t := by
    unfold room
    omega
  rw [copyOutcome, if_pos hroom, Nat.min_eq_left hroom]
  refine ⟨rfl, fun j hj => ?_, fun a ha => ?_⟩
  · have hsource : ((s + j : Nat) : Int) = s + ((t + j : Nat) - t : Int) := by omega
    rw [Memory.readByte_copied hs ht h, if_pos (by omega), hsource]
  · rw [Memory.readByte_copied hs ht h, if_neg (by omega)]

namespace Action

variable {σ : Type} {m : Machine σ} {s t : Nat}

theorem run_loadByte (a : Int) (m : Machine σ) :
    (loadByte a).run m = ((m.memory.readByte a).mapError .memory, m) :=
  run_ofMemory _ m

/-- How the action ends, and with which memory. -/
def Ends (x : Action σ Unit) (m : Machine σ) (r : Except Fault Unit) (memory : Memory) : Prop :=
  (x.run m).1 = r ∧ (x.run m).2.memory = memory

theorem Ends.after {α : Type} {x : Action σ α} {f : α → Action σ Unit} {a : α} {n : Machine σ}
    {r : Except Fault Unit} {memory : Memory} (hx : x.run m = (.ok a, n))
    (hf : Ends (f a) n r memory) : Ends (x >>= f) m r memory := by
  unfold Ends
  rw [run_bind_of_ok hx]
  exact hf

theorem ends_of_error {α : Type} {x : Action σ α} {f : α → Action σ Unit} {e : Fault}
    {n : Machine σ} (hx : x.run m = (.error e, n)) : Ends (x >>= f) m (.error e) n.memory := by
  unfold Ends
  rw [run_bind_of_error hx]
  exact ⟨rfl, rfl⟩

/-- The action copies a block: all of it, or what there is room for. -/
def Copies (s t size : Nat) (x : Action σ Unit) (m : Machine σ) : Prop :=
  Ends x m (copyOutcome s t size) (m.memory.copied s t (min size (room s t)))

/-- One turn of the loop, as long as there is room. -/
theorem ends_copy_succ {source target : Nat → Int} {k : Machine σ} {memory final : Memory}
    {r : Except Fault Unit} {i n : Nat} (hk : k.memory = memory.copied s t i)
    (hs : s + i < 4096) (ht : t + i < 4096)
    (hsource : source i = (s + i : Nat)) (htarget : target i = (t + i : Nat))
    (hnext : ∀ l : Machine σ, l.memory = memory.copied s t (i + 1) →
      Ends (copy source target (i + 1) n) l r final) :
    Ends (copy source target i (n + 1)) k r final := by
  have hload : (loadByte (source i)).run k = (.ok (memory.copied s t i).bytes[s + i], k) := by
    rw [run_loadByte, hsource, hk, Memory.readByte_of_lt hs]
    rfl
  have hstore := run_storeByte k (target i) (memory.copied s t i).bytes[s + i]
  rw [htarget, hk, Memory.writeByte_place ht, ← Memory.dump_one hs, ← htarget] at hstore
  exact Ends.after hload (Ends.after hstore (hnext _ rfl))

/-- The turn for which there is no room left. -/
theorem ends_copy_of_full {source target : Nat → Int} {i : Nat} (n : Nat) (k : Machine σ)
    (hi : i = room s t) (hsource : source i = (s + i : Nat)) (htarget : target i = (t + i : Nat)) :
    Ends (copy source target i (n + 1)) k
      (.error (.memory (.outOfRange (if s + i < 4096 then t + i else s + i : Nat)))) k.memory := by
  by_cases hs : s + i < 4096
  · have hload : (loadByte (source i)).run k = (.ok k.memory.bytes[s + i], k) := by
      rw [run_loadByte, hsource, Memory.readByte_of_lt hs]
      rfl
    have ht : 4096 ≤ t + i := by
      unfold room at hi
      omega
    have hstore := run_storeByte k (target i) k.memory.bytes[s + i]
    rw [htarget, Memory.writeByte_of_le ht, ← htarget] at hstore
    rw [if_pos hs, ← htarget]
    exact Ends.after hload (ends_of_error hstore)
  · have hload : (loadByte (source i)).run k =
        (.error (.memory (.outOfRange (s + i : Nat))), k) := by
      rw [run_loadByte, hsource, Memory.readByte_of_le (by omega)]
      rfl
    rw [if_neg hs]
    exact ends_of_error hload

/-- The loop, after `i` bytes of the block have been copied. -/
theorem ends_copy {source target : Nat → Int} {k : Machine σ}
    (hsource : ∀ j, j = 0 ∨ s + j ≤ 4096 → source j = (s + j : Nat))
    (htarget : ∀ j, j = 0 ∨ t + j ≤ 4096 → target j = (t + j : Nat)) (memory : Memory) (i n : Nat)
    (hi : i ≤ room s t) (hk : k.memory = memory.copied s t i) :
    Ends (copy source target i n) k (copyOutcome s t (i + n))
      (memory.copied s t (min (i + n) (room s t))) := by
  have hroom : room s t = 4096 - max s t := rfl
  induction n generalizing i k with
  | zero =>
    rw [Nat.add_zero, Nat.min_eq_left hi, copyOutcome, if_pos hi]
    exact ⟨rfl, hk⟩
  | succ n ih =>
    have hsi := hsource i (by omega)
    have hti := htarget i (by omega)
    by_cases hfull : i = room s t
    · rw [copyOutcome, if_neg (by omega), Nat.min_eq_right (by omega), ← hfull, ← hk]
      exact ends_copy_of_full n k hfull hsi hti
    · refine ends_copy_succ hk (by omega) (by omega) hsi hti fun l hl => ?_
      have hnext := ih (i + 1) (by omega) hl
      rwa [Nat.add_assoc, Nat.add_comm 1] at hnext

theorem copies_copy {source target : Nat → Int}
    (hsource : ∀ j, j = 0 ∨ s + j ≤ 4096 → source j = (s + j : Nat))
    (htarget : ∀ j, j = 0 ∨ t + j ≤ 4096 → target j = (t + j : Nat)) (size : Nat) (m : Machine σ) :
    Copies s t size (copy source target 0 size) m := by
  have hcopy := ends_copy hsource htarget m.memory 0 size (Nat.zero_le _) (k := m) rfl
  rwa [Nat.zero_add] at hcopy

theorem copies_mcp (S : System σ) (source target : Register) (size : Word) (m : Machine σ) :
    Copies (m.registers.get source).toNat (m.registers.get target).toNat size.toNat
      (execute S (.mcp source target size)) m := by
  have hsource : (register source).run m = (.ok (m.registers.get source), m) := rfl
  have htarget : (register target).run m = (.ok (m.registers.get target), m) := rfl
  exact Ends.after hsource (Ends.after htarget
    (copies_copy (fun _ => offset_of_le _) (fun _ => offset_of_le _) size.toNat m))

end Action
end Minicomputer
