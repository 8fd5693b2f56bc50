import Minicomputer.Listing
import Minicomputer.Proofs.Instruction.Stream
import Minicomputer.Proofs.Machine.Failure
import Minicomputer.Proofs.Machine.Image

/-!
# Listings of memory

A listing cuts its words from a list of bytes; a machine reads them from memory, where each address
is looked at for being in range. At every address both come to the same instruction and the same
size, or to none.
-/

set_option autoImplicit false

namespace Minicomputer

namespace Memory

variable {m : Memory} {a : Nat}

theorem readWord_of_drop {high low : Byte} {rest : List Byte}
    (h : m.bytes.toList.drop a = high :: low :: rest) :
    m.readWord a = .ok (Word.ofBytes high low) := by
  have hlength := congrArg List.length h
  simp only [List.length_drop, Vector.length_toList, List.length_cons] at hlength
  have hfront : (m.bytes.toList.take a).length = a := by
    rw [List.length_take, Vector.length_toList]
    omega
  have hcut : m.bytes.toList = m.bytes.toList.take a ++ high :: low :: rest := by
    rw [← h, List.take_append_drop]
  have hread := readWord_of_toList hcut
  rwa [hfront] at hread

/-- A word that is read is the front of the bytes from its address on. -/
theorem drop_of_readWord {w : Word} (h : m.readWord a = .ok w) :
    ∃ high low rest, m.bytes.toList.drop a = high :: low :: rest ∧ w = Word.ofBytes high low := by
  obtain ⟨i, hi, hlt⟩ := hasWord_of_readWord h
  have hia : a = i := Int.ofNat.inj hi
  have hlength : (m.bytes.toList.drop a).length = 4096 - a := by
    rw [List.length_drop, Vector.length_toList]
  cases hd : m.bytes.toList.drop a with
  | nil =>
    rw [hd, List.length_nil] at hlength
    omega
  | cons high rest =>
    cases rest with
    | nil =>
      rw [hd, List.length_singleton] at hlength
      omega
    | cons low rest =>
      rw [readWord_of_drop hd] at h
      exact ⟨high, low, rest, rfl, (Except.ok.inj h).symm⟩

/-- Two bytes at an address are a word that can be read. -/
theorem length_drop_of_readWord_error {e : MemoryFault} (h : m.readWord a = .error e) :
    (m.bytes.toList.drop a).length < 2 := by
  cases hd : m.bytes.toList.drop a with
  | nil => exact Nat.zero_lt_two
  | cons high rest =>
    cases rest with
    | nil => exact Nat.one_lt_two
    | cons low rest =>
      rw [readWord_of_drop hd] at h
      cases h

end Memory

/-- The first word of some bytes, with the word behind it where the first one asks for it. -/
inductive Instruction.Leads : List Byte → Word → Word → Prop where
  | short {high low : Byte} {rest : List Byte} (h : isLong (Word.ofBytes high low) = false) :
    Leads (high :: low :: rest) (Word.ofBytes high low) 0
  | long {high low dataHigh dataLow : Byte} {rest : List Byte}
    (h : isLong (Word.ofBytes high low) = true) :
    Leads (high :: low :: dataHigh :: dataLow :: rest) (Word.ofBytes high low)
      (Word.ofBytes dataHigh dataLow)

namespace Instruction

variable {bytes : List Byte} {word data : Word}

theorem front?_of_leads (h : Leads bytes word data) : front? bytes = decode word data := by
  cases h with
  | short h => simp [front?, h]
  | long h => simp [front?, h]

theorem Leads.length_ge (h : Leads bytes word data) :
    (if isLong word then 4 else 2) ≤ bytes.length := by
  cases h with
  | short h => simp [h]
  | long h => simp [h]

/-- Nothing behind the words matters. -/
theorem Leads.of_take_eq {other : List Byte} (h : Leads bytes word data)
    (ht : other.take (if isLong word then 4 else 2) = bytes.take (if isLong word then 4 else 2)) :
    Leads other word data := by
  rw [← List.take_append_drop (if isLong word then 4 else 2) other, ht]
  cases h with
  | short h =>
    rw [h]
    exact .short h
  | long h =>
    rw [h]
    exact .long h

end Instruction

open Instruction (Leads)

namespace Listing

variable {bytes : List Byte} {word data : Word}

theorem front_of_leads (h : Leads bytes word data) :
    front bytes = (Instruction.textOfWords word data, if Instruction.isLong word then 4 else 2) := by
  cases h with
  | short h => simp [front, h]
  | long h => simp [front, h]

theorem front_of_length_lt (h : bytes.length < 2) : front bytes = ("??", 1) := by
  match bytes, h with
  | [], _ => rfl
  | [_], _ => rfl

end Listing

namespace Machine

variable {σ : Type} {m : Machine σ} {word data : Word}

/-- The words that the machine fetches are those at the front of the bytes from its program counter
on. -/
theorem leads_of_presents (h : m.Presents word data) :
    Leads (m.memory.bytes.toList.drop m.pc.toNat) word data := by
  obtain ⟨high, low, rest, hd, rfl⟩ := Memory.drop_of_readWord h.1
  have hdata := h.2
  rw [hd]
  unfold dataWord at hdata
  cases hl : Instruction.isLong (Word.ofBytes high low) with
  | false =>
    rw [hl, if_neg Bool.false_ne_true] at hdata
    cases hdata
    exact .short hl
  | true =>
    rw [hl, if_pos rfl] at hdata
    have hread : m.memory.readWord ((m.pc.toNat + 2 : Nat) : Int) = .ok data := hdata
    obtain ⟨dataHigh, dataLow, tail, ht, rfl⟩ := Memory.drop_of_readWord hread
    have hrest : rest = dataHigh :: dataLow :: tail := by
      rw [← ht, ← List.drop_drop, hd]
      rfl
    rw [hrest]
    exact .long hl

theorem textAt_of_presents (h : m.Presents word data) :
    Listing.textAt m.memory.bytes.toList m.pc.toNat =
      (Instruction.textOfWords word data, if Instruction.isLong word then 4 else 2) :=
  Listing.front_of_leads (leads_of_presents h)

theorem textAt_of_decode {i : Instruction} (h : m.Presents word data)
    (hd : Instruction.decode word data = some i) :
    Listing.textAt m.memory.bytes.toList m.pc.toNat = (i.text, i.size) := by
  rw [textAt_of_presents h, Instruction.isLong_of_decode hd, Instruction.textOfWords, hd]
  obtain hs | hs := i.size_eq_two_or_four <;> rw [hs] <;> rfl

/-- A fetch that succeeds gives the words at the program counter. -/
theorem presents_of_fetch {n : Machine σ} (h : Action.fetch.run m = (.ok (word, data), n)) :
    m.Presents word data := by
  by_cases hp : ∃ word data, m.Presents word data
  · obtain ⟨word', data', hp⟩ := hp
    rw [Action.run_fetch_of_presents hp] at h
    cases h
    exact hp
  · obtain ⟨e, k, hk, -⟩ := Action.run_fetch_of_not_presents fun word data h => hp ⟨word, data, h⟩
    rw [hk] at h
    cases h

theorem fetch_of_readWord_error {e : MemoryFault} (h : m.memory.readWord m.pc.toNat = .error e) :
    Action.fetch.run m = (.error (.memory e), m) := by
  have hpc : (Action.register .pc).run m = (.ok m.pc, m) := rfl
  have hw := Action.run_loadWord m.pc.toNat m
  rw [h] at hw
  rw [Action.fetch_eq, Action.run_bind_of_ok hpc]
  exact Action.run_bind_of_error hw

/-- What is listed at the program counter in front of a step is the instruction that the step
executes, with the distance by which the program counter moves first; a word that the step cannot
decode, marked as such; and a single unknown byte where the step finds no word. -/
theorem textAt_of_step (S : System σ) (m : Machine σ) (hm : m.status.isResumable = true)
    {text : String} {size : Nat}
    (ht : Listing.textAt m.memory.bytes.toList m.pc.toNat = (text, size)) :
    (∀ word data k i, Action.fetch.run (m.setStatus .executing) = (.ok (word, data), k) →
      Instruction.decode word data = some i →
        text = i.text ∧ size = i.size ∧
          ∃ l, l.pc = m.pc + UInt16.ofNat size ∧ l.memory = m.memory ∧
            (Action.fetchAndExecute S).run (m.setStatus .executing) =
              Action.conclude word i ((Action.execute S i).run l)) ∧
    (∀ word data k, Action.fetch.run (m.setStatus .executing) = (.ok (word, data), k) →
      Instruction.decode word data = none →
        text = "??? " ++ Text.marked 4 word.toNat ∧ (m.step S).1 = .error (.undecodable word)) ∧
    (∀ e, m.memory.readWord m.pc.toNat = .error e →
      (text, size) = ("??", 1) ∧ (m.step S).1 = .error (.memory e)) := by
  have hstart : Listing.textAt (m.setStatus .executing).memory.bytes.toList
      (m.setStatus .executing).pc.toNat = (text, size) := by
    rw [setStatus_eq]
    exact ht
  have hpc : (m.setStatus .executing).pc = m.pc := congrArg RegisterFile.pc (registers_setStatus m _)
  have hmemory : (m.setStatus .executing).memory = m.memory := memory_setStatus m _
  have hstep : m.step S = (m.setStatus .executing).cycle S := if_pos hm
  rw [hstep]
  refine ⟨fun word data k i hf hd => ?_, fun word data k hf hd => ?_, fun e he => ?_⟩
  · have hp := presents_of_fetch hf
    have hshown := hstart.symm.trans (textAt_of_decode hp hd)
    cases hshown
    refine ⟨rfl, rfl, _, ?_, ?_, Action.run_fetchAndExecute_of_some S hp hd⟩
    · rw [← hpc]
      exact RegisterFile.get_set_self _ _ _
    · exact hmemory
  · have hp := presents_of_fetch hf
    have hshown := hstart.symm.trans (textAt_of_presents hp)
    rw [Instruction.textOfWords, hd] at hshown
    rw [Action.cycle_of_error S (Action.run_fetchAndExecute_of_none S hp hd)]
    exact ⟨congrArg Prod.fst hshown, rfl⟩
  · have hshort := Memory.length_drop_of_readWord_error he
    have he' : (m.setStatus .executing).memory.readWord (m.setStatus .executing).pc.toNat =
        .error e := by
      rw [hpc, hmemory]
      exact he
    rw [Action.cycle_of_error S
      (Action.run_fetchAndExecute_of_error S (fetch_of_readWord_error he'))]
    exact ⟨ht.symm.trans (Listing.front_of_length_lt hshort), rfl⟩

/-- A machine without services, in front of some code near the end of memory. -/
def nearEnd (address : Word) (code : List Byte) : Machine Unit :=
  { Machine.new () with
    memory := Memory.zero.place address.toNat code
    registers := initialRegisters.set .pc address }

def idle : System Unit := ⟨fun _ s => pure (.ok .proceed, s), id⟩

/-- A constant at an odd address, a word that is no instruction in the last place for one, and the
last byte of memory. -/
theorem textAt_of_step_nearEnd :
    (∃ l, l.pc = 4095 ∧ (Action.fetchAndExecute idle).run
        ((nearEnd 4091 [0x8F, 0x00, 0xFF, 0xFF]).setStatus .executing) =
          Action.conclude 0x8F00 (.access .li .t0 none 0xFFFF)
            ((Action.execute idle (.access .li .t0 none 0xFFFF)).run l)) ∧
      Listing.textAt (nearEnd 4091 [0x8F, 0x00, 0xFF, 0xFF]).memory.bytes.toList 4091 =
        ("li t0 -1", 4) ∧
      Listing.textAt (nearEnd 4094 [0xA0, 0x00]).memory.bytes.toList 4094 = ("??? 0xa000", 2) ∧
      ((nearEnd 4094 [0xA0, 0x00]).step idle).1 = .error (.undecodable 0xA000) ∧
      Listing.textAt (nearEnd 4095 [0xA0]).memory.bytes.toList 4095 = ("??", 1) ∧
      ((nearEnd 4095 [0xA0]).step idle).1 = .error (.memory (.outOfRange 4096)) := by
  have hconstant : Listing.textAt (nearEnd 4091 [0x8F, 0x00, 0xFF, 0xFF]).memory.bytes.toList 4091 =
      ("li t0 -1", 4) := by decide +kernel
  have hunknown : Listing.textAt (nearEnd 4094 [0xA0, 0x00]).memory.bytes.toList 4094 =
      ("??? 0xa000", 2) := by decide +kernel
  have hmissing : Listing.textAt (nearEnd 4095 [0xA0]).memory.bytes.toList 4095 = ("??", 1) := by
    decide +kernel
  have hconstantWords : ((nearEnd 4091 [0x8F, 0x00, 0xFF, 0xFF]).setStatus .executing).Presents
      0x8F00 0xFFFF := by
    constructor <;> decide +kernel
  have hunknownWords : ((nearEnd 4094 [0xA0, 0x00]).setStatus .executing).Presents 0xA000 0 := by
    constructor <;> decide +kernel
  have hread : (nearEnd 4095 [0xA0]).memory.readWord 4095 = .error (.outOfRange 4096) := by
    decide +kernel
  obtain ⟨executes, -, -⟩ := textAt_of_step idle (nearEnd 4091 [0x8F, 0x00, 0xFF, 0xFF]) rfl hconstant
  obtain ⟨-, refuses, -⟩ := textAt_of_step idle (nearEnd 4094 [0xA0, 0x00]) rfl hunknown
  obtain ⟨-, -, fails⟩ := textAt_of_step idle (nearEnd 4095 [0xA0]) rfl hmissing
  obtain ⟨-, -, l, hl, -, hrun⟩ :=
    executes _ _ _ _ (Action.run_fetch_of_presents hconstantWords) rfl
  obtain ⟨-, hundecodable⟩ := refuses _ _ _ (Action.run_fetch_of_presents hunknownWords) rfl
  obtain ⟨-, hfault⟩ := fails _ hread
  exact ⟨⟨l, hl, hrun⟩, hconstant, hunknown, hundecodable, hmissing, hfault⟩

end Machine
end Minicomputer
