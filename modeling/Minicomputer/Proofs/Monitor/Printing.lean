import Minicomputer.Proofs.Assembly.TextOutput
import Minicomputer.Proofs.Machine.Image
import Minicomputer.Proofs.Monitor.Conversation

/-!
# Runs that print a text

The way of a text from a literal to the console: the assembler puts it behind the code, loading puts
both into memory, and three cycles later it has been printed.
-/

set_option autoImplicit false

namespace Minicomputer.Monitor

open Minicomputer.Machine Minicomputer.Action

variable {m : Machine Monitor}

/-! ### Cycles one after the other -/

/-- What one cycle makes of a machine. -/
def next (m : Machine Monitor) : Machine Monitor := (m.cycle system).2

/-- A run without breakpoints and pauses is its cycles. -/
theorem runLimited_eq_iterate (hm : Free m) {k : Nat}
    (h : ∀ j < k, (next^[j] m).status = .executing) :
    m.runLimited system k = (k, next^[k] m) := by
  induction k with
  | zero =>
    cases hr : m.status.isResumable with
    | true => exact runLimited_zero system (hm.status hr) hm.pauseRequested
    | false => exact runLimited_of_not_isResumable system 0 hr
  | succ k ih =>
    have hrun := ih fun j hj => h j (Nat.lt_succ_of_lt hj)
    have hfree := hm.runLimited (h 0 (Nat.succ_pos k)) k
    have hk : (m.runLimited system k).2.status = .executing := by
      rw [hrun]
      exact h k (Nat.lt_succ_self k)
    rw [hfree.runLimited_succ hk, hrun, Function.iterate_succ_apply']
    rfl

/-! ### The cycles of the program -/

/-- A machine that executes, with what a program that prints depends on. -/
structure Executing (m : Machine Monitor) (memory : Memory) (pc a0 : Word) (output : String) :
    Prop where
  status : m.status = .executing
  served : m.system.isSome = true
  memory : m.memory = memory
  pc : m.pc = pc
  a0 : m.registers.get .a0 = a0
  output : m.console.output = output

variable {memory : Memory} {pc a0 : Word} {output : String}

theorem Executing.presents (h : Executing m memory pc a0 output) {word data : Word}
    (hw : memory.readWord pc.toNat = .ok word)
    (hd : (if Instruction.isLong word then memory.readWord (pc.toNat + 2) else .ok 0) = .ok data) :
    m.Presents word data := by
  unfold Presents dataWord
  rw [h.memory, h.pc]
  exact ⟨hw, hd⟩

/-- The address of a text is loaded. -/
theorem Executing.load (h : Executing m memory pc a0 output) {word address : Word}
    (hw : memory.readWord pc.toNat = .ok word) (ha : memory.readWord (pc.toNat + 2) = .ok address)
    (hl : Instruction.isLong word = true)
    (hd : Instruction.decode word address = some (.access .li .a0 none address)) :
    Executing (next m) memory (pc + 4) address output := by
  have hp : m.Presents word address := h.presents hw (by rw [if_pos hl]; exact ha)
  let n := m.poised word address (.access .li .a0 none address)
  have hexecute : (execute system (.access .li .a0 none address)).run n =
      (.ok (), n.setRegister .a0 address) := rfl
  have hrun := run_fetchAndExecute_of_some system hp hd
  rw [hexecute] at hrun
  rw [next, cycle_of_ok system hrun]
  refine ⟨h.status, h.served, h.memory, ?_, RegisterFile.get_set_self .., h.output⟩
  change ((((m.registers.set .ir word).set .dr address).set .pc (m.pc + 4)).set .a0 address).get
    .pc = pc + 4
  rw [RegisterFile.get_set_of_ne _ _ (by decide), RegisterFile.get_set_self, h.pc]

/-- The machine that a call is served on. -/
def calling (m : Machine Monitor) (word : Word) (c : Byte) : Machine Monitor :=
  { m.poised word 0 (.sys c) with system := none }

/-- A cycle with a system call, in the terms of what the call does. -/
theorem Executing.next_eq (h : Executing m memory pc a0 output) {word : Word} {c : Byte}
    {request : SystemCall} (hw : memory.readWord pc.toNat = .ok word)
    (hl : Instruction.isLong word = false) (hd : Instruction.decode word 0 = some (.sys c))
    (hc : SystemCall.ofSelector? c = some request) (hne : request ≠ .rnd) {reply : Reply}
    {n : Machine Monitor}
    (hserve : ∀ clock, (serve clock request).run (calling m word c) = (.ok reply, n)) :
    ∃ s, ∀ k, settle ((.ok reply, s), n) = (.ok (), k) →
      next m = (k.announce [.afterExecution word]).tick := by
  obtain ⟨s, hs⟩ := Option.isSome_iff_exists.mp h.served
  have hp : m.Presents word 0 := h.presents hw (by rw [hl]; rfl)
  have hattend : (attend c s).run (calling m word c) = (.ok (reply, s.generator), n) := by
    rw [attend_of_ne hc hne, run_bind_of_ok (hserve s.clock)]
    rfl
  have hsystem : (m.poised word 0 (.sys c)).system = some s := hs
  refine ⟨s, fun k hk => ?_⟩
  have hexecute : (execute system (.sys c)).run (m.poised word 0 (.sys c)) = (.ok (), k) := by
    have hcall := run_systemCall_eq c hsystem
    rw [show (attend c s).run { m.poised word 0 (.sys c) with system := none } = _ from hattend]
      at hcall
    exact hcall.trans hk
  have hrun := run_fetchAndExecute_of_some system hp hd
  rw [hexecute] at hrun
  rw [next, cycle_of_ok system hrun]

theorem run_serve_wstr {n : Machine Monitor} {text : String} (clock : Nat)
    (ht : n.memory.readText (n.registers.get .a0).toNat = .ok text) :
    (serve clock .wstr).run n = (.ok .proceed, n.print text) := by
  have ha : (address .a0 : Action Monitor Int).run n =
      (.ok ((n.registers.get .a0).toNat : Int), n) := rfl
  have htext : (loadText (n.registers.get .a0).toNat).run n =
      ((n.memory.readText (n.registers.get .a0).toNat).mapError .memory, n) := run_ofMemory _ n
  rw [ht] at htext
  have hserve : (serve clock .wstr : Action Monitor Reply) =
      address .a0 >>= fun a => loadText a >>= fun text => Action.print text >>= fun _ =>
        pure .proceed := rfl
  rw [hserve, run_bind_of_ok ha, run_bind_of_ok htext]
  rfl

/-- Fetching writes the registers of its own, besides the program counter. -/
theorem Executing.calling (h : Executing m memory pc a0 output) (word : Word) (c : Byte) :
    (calling m word c).pc = pc + 2 ∧ (calling m word c).registers.get .a0 = a0 := by
  change (((m.registers.set .ir word).set .dr 0).set .pc (m.pc + 2)).get .pc = pc + 2 ∧
    (((m.registers.set .ir word).set .dr 0).set .pc (m.pc + 2)).get .a0 = a0
  rw [RegisterFile.get_set_self, h.pc, RegisterFile.get_set_of_ne _ _ (by decide),
    RegisterFile.get_set_of_ne _ _ (by decide), RegisterFile.get_set_of_ne _ _ (by decide), h.a0]
  exact ⟨rfl, rfl⟩

theorem Executing.print (h : Executing m memory pc a0 output) {text : String}
    (hw : memory.readWord pc.toNat = .ok 6) (ht : memory.readText a0.toNat = .ok text) :
    Executing (next m) memory (pc + 2) a0 (output ++ text) := by
  obtain ⟨hpc, ha⟩ := h.calling 6 6
  have hmemory : (Monitor.calling m 6 6).memory = memory := h.memory
  have hread : (Monitor.calling m 6 6).memory.readText
      ((Monitor.calling m 6 6).registers.get .a0).toNat = .ok text := by
    rw [ha, hmemory]
    exact ht
  have hserve (clock : Nat) := run_serve_wstr clock hread
  obtain ⟨s, hnext⟩ := h.next_eq hw rfl rfl (by decide) (by decide) hserve
  rw [hnext _ rfl]
  refine ⟨h.status, rfl, h.memory, hpc, ha, ?_⟩
  change m.console.output ++ text = _
  rw [h.output]

theorem Executing.exit (h : Executing m memory pc a0 output)
    (hw : memory.readWord pc.toNat = .ok 0) :
    (next m).status = .finished ∧ (next m).console.output = output := by
  have hserve (clock : Nat) :
      (serve clock .exit).run (Monitor.calling m 0 0) = (.ok .exit, Monitor.calling m 0 0) := rfl
  obtain ⟨s, hnext⟩ := h.next_eq hw rfl rfl (by decide) (by decide) hserve
  rw [hnext _ rfl, setStatus_eq]
  exact ⟨rfl, h.output⟩

/-- The three cycles of a program whose text is at address 8. -/
theorem runLimited_of_image (hm : Free m) (h : Executing m memory 0 a0 "") {text back : List Byte}
    (hb : memory.bytes.toList = [0x8F, 0x60, 0, 8, 0, 6, 0, 0] ++ (text ++ 0 :: back))
    (ht : ∀ b ∈ text, b ≠ 0) : ∃ n, m.runLimited system 3 = (3, n) ∧ n.status = .finished ∧
      n.console.output = String.ofList (text.map Byte.char) := by
  have word (front : List Byte) {back : List Byte} {high low : Byte}
      (hb : memory.bytes.toList = front ++ high :: low :: back) :
      memory.readWord front.length = .ok (Word.ofBytes high low) := Memory.readWord_of_toList hb
  have hload : memory.readWord (0 : Word).toNat = .ok 0x8F60 := word [] hb
  have haddress : memory.readWord ((0 : Word).toNat + 2) = .ok 8 := word [0x8F, 0x60] hb
  have hprint : memory.readWord (0 + 4 : Word).toNat = .ok 6 := word [0x8F, 0x60, 0, 8] hb
  have hexit : memory.readWord (0 + 4 + 2 : Word).toNat = .ok 0 :=
    word [0x8F, 0x60, 0, 8, 0, 6] hb
  have htext : memory.readText (8 : Word).toNat = .ok (String.ofList (text.map Byte.char)) :=
    Memory.readText_of_toList hb ht
  have h₁ := h.load hload haddress (by decide) (by decide)
  have h₂ := h₁.print hprint htext
  obtain ⟨hstatus, houtput⟩ := h₂.exit hexit
  have htwo : next^[2] m = next (next m) := rfl
  have hrun : m.runLimited system 3 = (3, next^[3] m) := by
    refine runLimited_eq_iterate hm fun j hj => ?_
    obtain rfl | rfl | rfl : j = 0 ∨ j = 1 ∨ j = 2 := by omega
    · exact h.status
    · exact h₁.status
    · rw [htwo]
      exact h₂.status
  have hthree : next^[3] m = next (next (next m)) := rfl
  rw [hthree] at hrun
  rw [String.empty_append] at houtput
  exact ⟨next (next (next m)), hrun, hstatus, houtput⟩

/-! ### Whole runs -/

variable {p : Program}

theorem pc_loaded (seed : UInt64) (h : p.imageSize ≤ memorySize) : (loaded p seed).pc = 0 := by
  have hreset : ((Machine.new (ofSeed seed)).reset system).registers.get .pc = 0 := by
    change ((initialRegisters).get .pc) = 0
    decide
  rw [loaded, load_of_fits system _ h, Machine.pc, RegisterFile.pc]
  dsimp only
  rw [RegisterFile.get_set_of_ne _ _ (by decide), RegisterFile.get_set_of_ne _ _ (by decide),
    RegisterFile.get_set_of_ne _ _ (by decide), hreset]

theorem executing_loaded (seed : UInt64) (h : p.imageSize ≤ memorySize) :
    Executing ((loaded p seed).setStatus .executing) (loaded p seed).memory 0
      ((loaded p seed).registers.get .a0) "" := by
  have hpc := pc_loaded seed h
  obtain ⟨registers, memory, debugInfo, audience, hl⟩ := loaded_eq p seed
  rw [hl] at hpc ⊢
  rw [setStatus_eq]
  exact ⟨rfl, rfl, rfl, hpc, rfl, rfl⟩

theorem run_of_code (seed : UInt64) {text : List Byte} (h : p.imageSize ≤ memorySize)
    (hcode : p.code = [0x8F, 0x60, 0, 8, 0, 6, 0, 0]) (hdata : p.data = text ++ [0])
    (ht : ∀ b ∈ text, b ≠ 0) : ∃ n, (loaded p seed).run system = (3, n) ∧ n.status = .finished ∧
      n.console.output = String.ofList (text.map Byte.char) := by
  have himage : (loaded p seed).memory.bytes.toList = [0x8F, 0x60, 0, 8, 0, 6, 0, 0] ++
      (text ++ 0 :: List.replicate (memorySize - p.imageSize) 0) := by
    rw [loaded, toList_load system _ h, hcode, hdata, List.append_assoc]
    rfl
  have hready : (loaded p seed).status.isResumable = true := by
    obtain ⟨_, _, _, _, hl⟩ := loaded_eq p seed
    rw [hl]
    rfl
  obtain ⟨n, hrun, hstatus, houtput⟩ :=
    runLimited_of_image (free_loaded p seed []) (executing_loaded seed h) himage ht
  have hthree : (loaded p seed).runLimited system 3 = (3, n) := by
    rw [← hrun]
    exact (runLimited_setStatus_executing system 3 hready).symm
  refine ⟨n, ?_, hstatus, houtput⟩
  rw [run, runLimited_of_le system (a := 3) (by decide) ?_, hthree]
  rw [hthree, hstatus]
  decide

/-! ### From the source to the console -/

theorem char_ofNat {c : Char} (h : c.toNat < 128) : Byte.char (UInt8.ofNat c.toNat) = c := by
  have hbyte : (UInt8.ofNat c.toNat).toNat = c.toNat := by
    rw [UInt8.toNat_ofNat']
    omega
  rw [Byte.char, hbyte, Char.ofNat_toNat]

theorem ofNat_ne_zero {c : Char} (hpos : 0 < c.toNat) (h : c.toNat < 128) :
    UInt8.ofNat c.toNat ≠ 0 := by
  intro hzero
  have hbyte := congrArg UInt8.toNat hzero
  rw [UInt8.toNat_ofNat'] at hbyte
  change c.toNat % 256 = 0 at hbyte
  omega

open Assembly Token in
/-- An ASCII text comes out of the console as it stands in the literal, escapes aside, up to the
length for which there is room in memory. -/
theorem run_printing {settings : Settings} (hleader : settings.commentLeader = defaultLeader)
    (seed : UInt64) {s : String} (hs : ∀ c ∈ s.toList, 0 < c.toNat ∧ c.toNat < 128)
    (hlength : s.length ≤ 4087) :
    (assemble settings (printing s)).diagnostics = [] ∧
      ∃ p n, (assemble settings (printing s)).program = some p ∧
        ((Machine.new (ofSeed seed)).load system p).1 = .ok () ∧
          (loaded p seed).run system = (3, n) ∧ n.status = .finished ∧ n.console.output = s := by
  obtain ⟨hclean, p, hp, hcode, hdata⟩ :=
    program_printing hleader (fun c hc => (hs c hc).2) hlength
  have hfits : p.imageSize ≤ memorySize := by
    have hmax : memorySize = 4096 := rfl
    rw [Program.imageSize, hcode, hdata, hmax]
    simp only [List.length_cons, List.length_nil, List.length_append, List.length_map,
      String.length_toList]
    omega
  have hnonzero : ∀ b ∈ s.toList.map fun c => UInt8.ofNat c.toNat, b ≠ 0 := by
    intro b hb
    obtain ⟨c, hc, rfl⟩ := List.mem_map.mp hb
    exact ofNat_ne_zero (hs c hc).1 (hs c hc).2
  have hsame : (s.toList.map fun c => UInt8.ofNat c.toNat).map Byte.char = s.toList := by
    rw [List.map_map]
    exact (List.map_congr_left fun c hc => char_ofNat (hs c hc).2).trans (List.map_id _)
  obtain ⟨n, hrun, hstatus, houtput⟩ := run_of_code seed hfits hcode hdata hnonzero
  rw [hsame, String.ofList_toList] at houtput
  exact ⟨hclean, p, n, hp, (load_eq_ok_iff system p _).mpr hfits, hrun, hstatus, houtput⟩

/-- A text with all that means something to the scanner: quotes, a comment, a break and a label. -/
theorem run_printing_quoted :
    (Assembly.assemble {} (Assembly.printing "say \"\\n\"\n# m: 'a'")).diagnostics = [] ∧
      ∃ p n, (Assembly.assemble {} (Assembly.printing "say \"\\n\"\n# m: 'a'")).program = some p ∧
        ((Machine.new (ofSeed 1)).load system p).1 = .ok () ∧
          (loaded p 1).run system = (3, n) ∧ n.status = .finished ∧
            n.console.output = "say \"\\n\"\n# m: 'a'" :=
  run_printing rfl 1 (by simp) (by decide)

end Minicomputer.Monitor
