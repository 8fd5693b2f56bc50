import Minicomputer.Proofs.Monitor.Formatting
import Minicomputer.Proofs.Monitor.Lifecycle

/-!
# Random numbers

The generator mixes the bits of its state in three steps, each of which can be undone. So no two
states are followed by the same one, and a state that is not zero is never followed by zero. A number
that is drawn lies between the two that the program gives, whatever they are, as there are bits
enough for all that it is worked out from.
-/

set_option autoImplicit false

namespace Minicomputer

namespace Generator

/-! ### Steps that can be undone -/

theorem getLsbD_mixLeft (x n : UInt64) (i : Nat) : (mixLeft x n).toBitVec.getLsbD i =
    (x.toBitVec.getLsbD i ^^
      (decide (i < 64) && !decide (i < n.toNat % 64) && x.toBitVec.getLsbD (i - n.toNat % 64))) := by
  rw [mixLeft, UInt64.toBitVec_xor, UInt64.toBitVec_shiftLeft, BitVec.getLsbD_xor,
    BitVec.shiftLeft_eq', BitVec.getLsbD_shiftLeft, BitVec.toNat_umod]
  rfl

theorem getLsbD_mixRight (x n : UInt64) (i : Nat) : (mixRight x n).toBitVec.getLsbD i =
    (x.toBitVec.getLsbD i ^^ x.toBitVec.getLsbD (n.toNat % 64 + i)) := by
  rw [mixRight, UInt64.toBitVec_xor, UInt64.toBitVec_shiftRight, BitVec.getLsbD_xor,
    BitVec.ushiftRight_eq', BitVec.getLsbD_ushiftRight, BitVec.toNat_umod]
  rfl

theorem eq_of_getLsbD {x y : UInt64}
    (h : ∀ i < 64, x.toBitVec.getLsbD i = y.toBitVec.getLsbD i) : x = y :=
  UInt64.toBitVec_inj.mp (BitVec.eq_of_getLsbD_eq h)

/-- The lowest bits are not mixed, and each bit above them is mixed with one below it. -/
theorem mixLeft_injective {n : UInt64} (hn : 0 < n.toNat % 64) :
    Function.Injective (mixLeft · n) := by
  intro x y h
  refine eq_of_getLsbD fun i => ?_
  induction i using Nat.strong_induction_on with
  | _ i ih =>
    intro hi
    have hbit := congrArg (fun z : UInt64 => z.toBitVec.getLsbD i) h
    simp only [getLsbD_mixLeft] at hbit
    by_cases hlow : i < n.toNat % 64
    · simpa [hlow] using hbit
    · rw [ih (i - n.toNat % 64) (by omega) (by omega)] at hbit
      exact Bool.xor_left_inj.mp hbit

/-- The highest bits are not mixed, and each bit below them is mixed with one above it. -/
theorem mixRight_injective {n : UInt64} (hn : 0 < n.toNat % 64) :
    Function.Injective (mixRight · n) := by
  intro x y h
  -- By induction on the distance from the top.
  have hbits (d : Nat) : ∀ i < 64, 64 - i = d → x.toBitVec.getLsbD i = y.toBitVec.getLsbD i := by
    induction d using Nat.strong_induction_on with
    | _ d ih =>
      intro i hi hd
      have hbit := congrArg (fun z : UInt64 => z.toBitVec.getLsbD i) h
      simp only [getLsbD_mixRight] at hbit
      by_cases hhigh : n.toNat % 64 + i < 64
      · rw [ih (64 - (n.toNat % 64 + i)) (by omega) _ hhigh rfl] at hbit
        exact Bool.xor_left_inj.mp hbit
      · have hout (z : UInt64) : z.toBitVec.getLsbD (n.toNat % 64 + i) = false :=
          BitVec.getLsbD_of_ge _ _ (by omega)
        rw [hout, hout] at hbit
        exact Bool.xor_left_inj.mp hbit
  exact eq_of_getLsbD fun i hi => hbits (64 - i) i hi rfl

theorem next_injective : Function.Injective next := by
  intro g k h
  have hstate : mixLeft (mixRight (mixLeft g.state 13) 7) 17 =
      mixLeft (mixRight (mixLeft k.state 13) 7) 17 := congrArg state h
  have hright := mixLeft_injective (n := 17) (by decide) hstate
  have hleft := mixRight_injective (n := 7) (by decide) hright
  have hequal : g.state = k.state := mixLeft_injective (n := 13) (by decide) hleft
  cases g
  cases k
  exact congrArg mk hequal

theorem state_next_ne_zero {g : Generator} (h : g.state ≠ 0) : g.next.state ≠ 0 := by
  intro hnext
  have hzero : (⟨0⟩ : Generator).next = ⟨0⟩ := by decide
  have hsame : g.next = (⟨0⟩ : Generator).next := by
    rw [hzero]
    exact congrArg mk hnext
  exact h (congrArg state (next_injective hsame))

theorem state_ofSeed_ne_zero (seed : UInt64) : (ofSeed seed).state ≠ 0 := by
  unfold ofSeed
  split
  · decide
  · assumption

theorem state_iterate_ne_zero (seed : UInt64) (k : Nat) : (next^[k] (ofSeed seed)).state ≠ 0 := by
  induction k with
  | zero => exact state_ofSeed_ne_zero seed
  | succ k ih =>
    rw [Function.iterate_succ_apply']
    exact state_next_ne_zero ih

/-! ### Room for the numbers -/

theorem toInt_add_of_bounds {x y : Int32} (hlow : -2 ^ 31 ≤ x.toInt + y.toInt)
    (hhigh : x.toInt + y.toInt < 2 ^ 31) : (x + y).toInt = x.toInt + y.toInt := by
  rw [Int32.toInt_add, Int.bmod_eq_of_le (by omega) (by omega)]

theorem toInt_sub_of_bounds {x y : Int32} (hlow : -2 ^ 31 ≤ x.toInt - y.toInt)
    (hhigh : x.toInt - y.toInt < 2 ^ 31) : (x - y).toInt = x.toInt - y.toInt := by
  rw [Int32.toInt_sub, Int.bmod_eq_of_le (by omega) (by omega)]

theorem toNat_toUInt64 {x : Int64} (h : 0 ≤ x.toInt) : (x.toUInt64.toNat : Int) = x.toInt := by
  have hcond : x.toInt = if 2 * x.toUInt64.toNat < 2 ^ 64 then (x.toUInt64.toNat : Int)
      else x.toUInt64.toNat - (2 ^ 64 : Nat) := BitVec.toInt_eq_toNat_cond x.toBitVec
  have hlt : x.toUInt64.toNat < 2 ^ 64 := x.toUInt64.toNat_lt
  split at hcond <;> omega

theorem toInt_toInt32 {x : UInt32} (h : 2 * x.toNat < 2 ^ 32) : x.toInt32.toInt = x.toNat :=
  BitVec.toInt_eq_toNat_of_lt h

/-- A signed word is a number of sixteen bits. -/
theorem signed_bounds (w : Word) : -32768 ≤ w.signed ∧ w.signed ≤ 32767 := by
  have hw := w.toNat_lt
  unfold Word.signed
  split <;> omega

theorem toInt_widened (w : Word) : w.toInt16.toInt32.toInt = w.signed := by
  rw [Int16.toInt_toInt32, Word.toInt_toInt16]

section

variable (a b : Word)

theorem toInt_ordered : (ordered a b).1.toInt = min a.signed b.signed ∧
    (ordered a b).2.toInt = max a.signed b.signed := by
  unfold ordered
  dsimp only
  split
  · next h =>
    rw [Int32.le_iff_toInt_le, toInt_widened, toInt_widened] at h
    rw [toInt_widened, toInt_widened, min_eq_left h, max_eq_right h]
    exact ⟨rfl, rfl⟩
  · next h =>
    rw [Int32.le_iff_toInt_le, toInt_widened, toInt_widened] at h
    rw [toInt_widened, toInt_widened, min_eq_right (by omega), max_eq_left (by omega)]
    exact ⟨rfl, rfl⟩

/-- The number that the state is divided by. -/
def modulus : UInt64 := span (ordered a b).1 (ordered a b).2

theorem toNat_modulus :
    ((modulus a b).toNat : Int) = max a.signed b.signed - min a.signed b.signed + 1 := by
  obtain ⟨hlow, hhigh⟩ := toInt_ordered a b
  have ha := signed_bounds a
  have hb := signed_bounds b
  have hone : (1 : Int32).toInt = 1 := rfl
  have hsub : ((ordered a b).2 - (ordered a b).1).toInt =
      max a.signed b.signed - min a.signed b.signed := by
    rw [toInt_sub_of_bounds (by omega) (by omega), hhigh, hlow]
  have hadd : ((ordered a b).2 - (ordered a b).1 + 1).toInt =
      max a.signed b.signed - min a.signed b.signed + 1 := by
    rw [toInt_add_of_bounds (by omega) (by omega), hsub, hone]
  rw [modulus, span, toNat_toUInt64 (by rw [Int32.toInt_toInt64]; omega), Int32.toInt_toInt64, hadd]

end

/-- What is worked out on the way from a state to a word between `a` and `b`. There are numbers
between them, so that the division has a remainder, and no cut loses anything. -/
structure Draws (g : Generator) (a b w : Word) : Prop where
  one_le_modulus : 1 ≤ (modulus a b).toNat
  /-- The remainder fits in thirty-two signed bits. -/
  remainder : (g.next.state % modulus a b).toUInt32.toInt32.toInt =
    (g.next.state.toNat % (modulus a b).toNat : Nat)
  /-- So does the sum. -/
  sum : ((ordered a b).1 + (g.next.state % modulus a b).toUInt32.toInt32).toInt =
    min a.signed b.signed + (g.next.state.toNat % (modulus a b).toNat : Nat)
  /-- The sum fits in a signed word. -/
  word : w.signed = min a.signed b.signed + (g.next.state.toNat % (modulus a b).toNat : Nat)
  low_le : min a.signed b.signed ≤ w.signed
  le_high : w.signed ≤ max a.signed b.signed

theorem draws_inRange (g : Generator) (a b : Word) : Draws g a b (g.inRange a b).1 := by
  obtain ⟨hlow, -⟩ := toInt_ordered a b
  have ha := signed_bounds a
  have hb := signed_bounds b
  have hmodulus := toNat_modulus a b
  have hpos : 1 ≤ (modulus a b).toNat := by omega
  have hlt : g.next.state.toNat % (modulus a b).toNat < (modulus a b).toNat := Nat.mod_lt _ hpos
  have hnarrow : (g.next.state % modulus a b).toUInt32.toNat =
      g.next.state.toNat % (modulus a b).toNat := by
    rw [UInt64.toNat_toUInt32, UInt64.toNat_mod, Nat.mod_eq_of_lt (by omega)]
  have hremainder : (g.next.state % modulus a b).toUInt32.toInt32.toInt =
      (g.next.state.toNat % (modulus a b).toNat : Nat) := by
    rw [toInt_toInt32 (by omega), hnarrow]
  have hsum : ((ordered a b).1 + (g.next.state % modulus a b).toUInt32.toInt32).toInt =
      min a.signed b.signed + (g.next.state.toNat % (modulus a b).toNat : Nat) := by
    rw [toInt_add_of_bounds (by omega) (by omega), hremainder, hlow]
  have hword : (g.inRange a b).1.signed =
      min a.signed b.signed + (g.next.state.toNat % (modulus a b).toNat : Nat) := by
    change Word.signed (Int32.toInt16 _).toUInt16 = _
    rw [Word.signed_toUInt16, Int32.toInt_toInt16]
    change ((ordered a b).1 + (g.next.state % modulus a b).toUInt32.toInt32).toInt.bmod _ = _
    rw [hsum, Int.bmod_eq_of_le (by omega) (by omega)]
  exact ⟨hpos, hremainder, hsum, hword, by omega, by omega⟩

end Generator

namespace Monitor

open Minicomputer.Action Minicomputer.Machine

variable {σ : Type}

/-! ### The generator of a machine -/

/-- The word that a machine draws next. -/
def drawn (s : Monitor) (m : Machine σ) : Word :=
  (s.generator.inRange (m.registers.get .a0) (m.registers.get .a1)).1

theorem call_rnd (s : Monitor) (m : Machine σ) : call SystemCall.rnd.selector s m =
    ((.ok .proceed, { s with generator := s.generator.next }), m.setRegister .rv (drawn s m)) := rfl

/-- Only a draw moves the generator, and it moves it by one step. -/
theorem generator_call (c : Byte) (s : Monitor) (m : Machine σ) :
    (call c s m).1.2.generator = s.generator ∨
      (call c s m).1.2.generator = s.generator.next := by
  cases h : SystemCall.ofSelector? c with
  | none =>
    unfold call
    rw [h]
    exact .inl rfl
  | some d =>
    by_cases hd : d = .rnd
    · subst hd
      unfold call
      rw [h]
      exact .inr rfl
    · rw [call_of_ne h hd]
      exact .inl rfl

/-- The machine has a monitor, whose generator has come from another one by steps. -/
def Descends (g : Generator) (m : Machine Monitor) : Prop :=
  ∃ s k, m.system = some s ∧ s.generator = Generator.next^[k] g

variable {g : Generator} {m n : Machine Monitor}

theorem Descends.of_eq (h : Descends g m) (hn : n.system = m.system) : Descends g n := by
  obtain ⟨s, k, hs, hk⟩ := h
  exact ⟨s, k, hn.trans hs, hk⟩

theorem descends_systemCall (c : Byte) (h : Descends g m) :
    Descends g ((systemCall system c).run m).2 := by
  obtain ⟨s, k, hs, hk⟩ := h
  rw [run_systemCall_of_some system c hs]
  have hsystem := system_settle (system.call c s { m with system := none })
  obtain hsame | hnext := generator_call c s { m with system := none }
  · exact ⟨_, k, hsystem, hsame.trans hk⟩
  · refine ⟨_, k + 1, hsystem, hnext.trans ?_⟩
    rw [hk, Function.iterate_succ_apply']

theorem Descends.of_map (h : Descends g m) (hn : n.system = m.system.map Monitor.reset) :
    Descends g n := by
  obtain ⟨s, k, hs, hk⟩ := h
  rw [hs] at hn
  exact ⟨s.reset, k, hn, hk⟩

theorem descends_apply (op : Operation) (h : Descends g m) : Descends g (op.apply m) := by
  let Q (o : Option Monitor) : Prop := ∃ s k, o = some s ∧ s.generator = Generator.next^[k] g
  have hcall {n : Machine Monitor} (c : Byte) (h : Q n.system) :
      Q ((systemCall system c).run n).2.system := descends_systemCall c h
  cases op with
  | load p => exact h.of_map (system_load system p m)
  | reset => exact h.of_map (system_reset system m)
  | step => exact system_step system (Q := Q) hcall h
  | run signals limit => exact system_runScheduled system (Q := Q) hcall signals limit h
  | pause => exact kept_pause (fun s h => h.of_eq (system_setStatus _ s)) h
  | requestPause => exact h.of_eq rfl
  | addBreakpoint a => exact h.of_eq rfl
  | removeBreakpoint a => exact h.of_eq rfl
  | provideInput s => exact h.of_eq rfl
  | elapse milliseconds =>
    obtain ⟨s, k, hs, hk⟩ := h
    exact ⟨{ s with clock := s.clock + milliseconds }, k, by
      change m.system.map _ = _
      rw [hs]
      rfl, hk⟩

theorem descends_foldl (ops : List Operation) (h : Descends g m) :
    Descends g (ops.foldl Operation.apply m) := by
  induction ops generalizing m with
  | nil => exact h
  | cons op ops ih => exact ih (descends_apply op h)

/-- No two states of the generator are followed by the same one. From no seed it ever comes to zero,
and whatever is done with a machine, its generator is where some number of steps takes the seed. A
draw moves it by one step, and the word drawn lies between the values of `a0` and `a1`, which may be
any two and stand in either order: the modulus is never zero, and no cut on the way loses
anything. -/
theorem rnd_in_range (seed : UInt64) :
    Function.Injective Generator.next ∧
    (∀ k, (Generator.next^[k] (.ofSeed seed)).state ≠ 0) ∧
    (∀ ops : List Operation,
      Descends (.ofSeed seed) (ops.foldl Operation.apply (Machine.new (ofSeed seed)))) ∧
    ∀ (s : Monitor) (m : Machine Monitor),
      Generator.Draws s.generator (m.registers.get .a0) (m.registers.get .a1) (drawn s m) ∧
      call SystemCall.rnd.selector s m =
        ((.ok .proceed, { s with generator := s.generator.next }), m.setRegister .rv (drawn s m)) ∧
      (m.system = some s → (execute system (.sys SystemCall.rnd.selector)).run m =
        (.ok (), { m.setRegister .rv (drawn s m) with
          system := some { s with generator := s.generator.next } })) := by
  refine ⟨Generator.next_injective, Generator.state_iterate_ne_zero seed, fun ops => ?_,
    fun s m => ⟨Generator.draws_inRange _ _ _, call_rnd s m, fun hs => ?_⟩⟩
  · exact descends_foldl ops ⟨ofSeed seed, 0, rfl, rfl⟩
  · rw [run_execute_of_call hs (call_rnd s { m with system := none })]
    rfl

/-- A machine that draws from all the words there are. -/
def drawingAny : Machine Monitor :=
  { Machine.new (ofSeed 0) with
    registers := (Machine.initialRegisters.set .a0 0x7FFF).set .a1 0x8000 }

theorem rnd_in_range_drawingAny :
    (Generator.modulus 0x7FFF 0x8000).toNat = 65536 ∧ -32768 ≤ (drawn (ofSeed 0) drawingAny).signed ∧
      ((execute system (.sys SystemCall.rnd.selector)).run drawingAny).1 = .ok () := by
  obtain ⟨-, -, -, hdraw⟩ := rnd_in_range 0
  obtain ⟨hdraws, -, hrun⟩ := hdraw (ofSeed 0) drawingAny
  have ha0 : drawingAny.registers.get .a0 = 0x7FFF := by decide +kernel
  have ha1 : drawingAny.registers.get .a1 = 0x8000 := by decide +kernel
  have hlow := hdraws.low_le
  rw [ha0, ha1] at hlow
  exact ⟨by decide, hlow, congrArg Prod.fst (hrun rfl)⟩

end Monitor
end Minicomputer
