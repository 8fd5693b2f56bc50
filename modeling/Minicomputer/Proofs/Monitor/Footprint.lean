import Minicomputer.Proofs.Machine.Footprint
import Minicomputer.Proofs.Monitor.Failure

/-!
# The footprint of a step

Under the monitor a step that succeeds writes no more than its instruction names: registers of a
short list, the test flag, and bytes in a row. System calls answer in one register, and two of them
store. So programs of any kind, those that rewrite themselves included, change neither the limits of
their code and data nor the register of the joystick, and no flags but the two that there are.
-/

set_option autoImplicit false

namespace Minicomputer

/-- A fault sets the second lowest bit. -/
theorem RegisterFile.flags_setErrorFlag (f : RegisterFile) :
    ((f.setErrorFlag true).get .flags).toNat / 4 = (f.get .flags).toNat / 4 := by
  have hbits : ((f.setErrorFlag true).get .flags).toNat / 2 = (f.get .flags).toNat / 2 ||| 1 := by
    rw [get_flags_setErrorFlag, if_pos rfl, UInt16.toNat_or, Nat.or_div_two]
    rfl
  have hhalf : ((f.get .flags).toNat / 2 ||| 1) / 2 = (f.get .flags).toNat / 2 / 2 := by
    rw [Nat.or_div_two]
    exact Nat.or_zero _
  omega

namespace Monitor

open Minicomputer.Machine Minicomputer.Action

variable {σ γ : Type}

/-! ### System calls -/

/-- A call changes the register for answers, the console and, in two cases, bytes of memory. -/
theorem leaves_serve {view : Machine σ → γ} (hrv : ∀ m w, view (m.setRegister .rv w) = view m)
    (hprint : ∀ m s, view (m.print s) = view m)
    (hconsole : ∀ (m : Machine σ) console, view { m with console } = view m) (clock : Nat)
    {c : SystemCall}
    (hstore : c = .rstr ∨ c = .memcpy → ∀ a b, Leaves view (storeByte a b : Action σ Unit)) :
    Leaves view (serve clock c) := by
  have hanswer (w : Word) : Leaves view (answer w) := fun m => hrv m w
  have hsay (s : String) : Leaves view (print s) := fun m => hprint m s
  have hline {k : String → Action σ Reply} (hk : ∀ line, Leaves view (k line)) :
      Leaves view (answerLine k) := by
    intro m
    cases hl : m.console.readLine? with
    | none => rw [run_answerLine_of_none k hl]
    | some p =>
      obtain ⟨line, console⟩ := p
      rw [run_answerLine_of_some k hl]
      exact (hk line _).trans (hconsole m console)
  cases c with
  | exit | sleep => exact fun _ => rfl
  | rint => exact hline fun _ => hanswer _
  | wint | wchr => exact (looks_register _).leaves.bind fun _ => (hsay _).bind fun _ _ => rfl
  | rstr =>
    have hbytes (a : Int) (bs : List Byte) : Leaves view (storeBytes a bs : Action σ Unit) := by
      induction bs generalizing a with
      | nil => exact fun _ => rfl
      | cons b bs ih => exact (hstore (.inl rfl) a b).bind fun _ => ih _
    exact hline fun line => (looks_address _).leaves.bind fun _ => (looks_count _).leaves.bind
      fun _ => (hbytes _ _).bind fun _ => hanswer _
  | rchr =>
    intro m
    cases hc : m.console.readChar? with
    | none => rw [run_rchr_of_none clock hc]
    | some p =>
      obtain ⟨x, console⟩ := p
      rw [run_rchr_of_some clock hc]
      exact (hanswer _ _).trans (hconsole m console)
  | wstr =>
    exact (looks_address _).leaves.bind fun _ => (looks_loadText _).leaves.bind fun _ =>
      (hsay _).bind fun _ _ => rfl
  | printf =>
    exact (looks_address _).leaves.bind fun _ => (looks_loadText _).leaves.bind fun _ =>
      (looks_format _ _).leaves.bind fun _ => (hsay _).bind fun _ _ => rfl
  | atoi =>
    exact (looks_address _).leaves.bind fun _ => (looks_loadText _).leaves.bind fun _ => hanswer _
  | timer => exact hanswer _
  | joystick => exact (looks_register _).leaves.bind fun _ => hanswer _
  | memcpy =>
    have hcopy (source target : Nat → Int) (i n : Nat) :
        Leaves view (copy source target i n : Action σ Unit) := by
      induction n generalizing i with
      | zero => exact fun _ => rfl
      | succ n ih =>
        exact (looks_loadByte _).leaves.bind fun b => (hstore (.inr rfl) _ b).bind fun _ => ih _
    exact (looks_address _).leaves.bind fun _ => (looks_address _).leaves.bind fun _ =>
      (looks_count _).leaves.bind fun _ => (hcopy _ _ 0 _).bind fun _ _ => rfl
  | error =>
    exact (looks_address _).leaves.bind fun _ => (looks_loadText _).leaves.bind fun _ =>
      (hsay _).bind fun _ _ => rfl
  | _ => exact hanswer _

theorem leaves_random {view : Machine σ → γ} (hrv : ∀ m w, view (m.setRegister .rv w) = view m)
    (g : Generator) : Leaves view (random g : Action σ (Reply × Generator)) := by
  apply (looks_register _).leaves.bind
  intro low
  apply (looks_register _).leaves.bind
  intro high
  exact Leaves.bind (fun m => hrv m _ : Leaves view (answer _)) fun _ _ => rfl

theorem leaves_attend {view : Machine σ → γ} (hrv : ∀ m w, view (m.setRegister .rv w) = view m)
    (hprint : ∀ m s, view (m.print s) = view m)
    (hconsole : ∀ (m : Machine σ) console, view { m with console } = view m) {selector : Byte}
    (s : Monitor)
    (hstore : ∀ c, SystemCall.ofSelector? selector = some c → c = .rstr ∨ c = .memcpy →
      ∀ a b, Leaves view (storeByte a b : Action σ Unit)) :
    Leaves view (attend selector s) := by
  obtain ⟨e, ha⟩ | ha | ⟨c, hs, ha⟩ := attend_cases selector s <;> rw [ha]
  · exact fun _ => rfl
  · exact leaves_random hrv s.generator
  · exact (leaves_serve hrv hprint hconsole s.clock (hstore c hs)).bind fun _ _ => rfl

/-! ### Calls that store -/

theorem tells_count (r : Register) :
    Tells (fun g => (g.get r).signed.toNat) (count r : Action σ Nat) :=
  fun _ => rfl

/-- An address is the word of a register. -/
theorem address_bind {β : Type} (r : Register) (f : Int → Action σ β) :
    address r >>= f = register r >>= fun w => f w.toNat := by
  unfold address
  rw [bind_assoc]
  simp only [pure_bind]

theorem confines_storeBytes (start length i : Nat) (bs : List Byte) (h : i + bs.length ≤ length) :
    Confines (fun _ => ⟨start, length⟩)
      (storeBytes ((start + i : Nat) : Int) bs : Action σ Unit) := by
  induction bs generalizing i with
  | nil => exact Leaves.confines fun _ => rfl
  | cons b bs ih =>
    rw [List.length_cons] at h
    have hb : Region.Contains ⟨start, length⟩ ((start + i : Nat) : Int) := by
      rw [Region.contains_iff]
      omega
    exact (confines_storeByte hb b).bind fun _ => ih (i + 1) (by omega)

theorem confines_keepLine (line : String) :
    Confines (fun g => ⟨(g.get .a0).toNat, (g.get .a1).signed.toNat⟩)
      (keepLine line : Action σ Reply) := by
  have hs (r : Register) (hr : r ≠ .rv) (a : Int) : Leaves (·.registers.get r)
      (do
        let bytes := (bytesOfText line).take (← count .a1)
        storeBytes a bytes
        answer (UInt16.ofNat bytes.length) : Action σ Reply) :=
    (looks_count _).leaves.bind fun _ => (spares_storeBytes a _).leaves.bind fun _ =>
      (leaves_setRegister hr _).bind fun _ _ => rfl
  unfold keepLine
  rw [address_bind]
  refine (tells_register .a0).confines
    (A := fun w g => ⟨w.toNat, (g.get .a1).signed.toNat⟩) (fun w => ?_)
    ((looks_register _).leaves.bind fun w => hs .a0 (by decide) _)
  refine (tells_count .a1).confines (A := fun k _ => ⟨w.toNat, k⟩) (fun k => ?_) ?_
  · exact (confines_storeBytes w.toNat k 0 _ (by rw [List.length_take]; omega)).bind fun _ =>
      Leaves.confines fun _ => rfl
  · exact (hs .a1 (by decide) _).map fun w => w.signed.toNat

theorem confines_rstr (clock : Nat) :
    Confines (fun g => ⟨(g.get .a0).toNat, (g.get .a1).signed.toNat⟩)
      (serve clock .rstr : Action σ Reply) := by
  intro m a n h
  change (answerLine keepLine).run m = _ at h
  cases hl : m.console.readLine? with
  | none =>
    rw [run_answerLine_of_none _ hl] at h
    cases h
    exact fun _ _ => rfl
  | some p =>
    obtain ⟨line, console⟩ := p
    rw [run_answerLine_of_some _ hl] at h
    have hline := confines_keepLine line h
    exact hline

theorem confines_memcpy (clock : Nat) :
    Confines (fun g => ⟨(g.get .a1).toNat, (g.get .a2).signed.toNat⟩)
      (serve clock .memcpy : Action σ Reply) := by
  have hs (source target : Int) : Spares (do
      copy (fun i => source + i) (fun i => target + i) 0 (← count .a2)
      return .proceed : Action σ Reply) :=
    (looks_count _).spares.bind fun _ => (spares_copy _ _ 0 _).bind fun _ _ => ⟨rfl, rfl⟩
  refine (looks_address _).leaves.before fun source => ?_
  rw [address_bind]
  refine (tells_register .a1).confines (A := fun w g => ⟨w.toNat, (g.get .a2).signed.toNat⟩)
    (fun w => ?_) (((looks_register _).spares.bind fun w => hs source w.toNat).leaves_of (·.get .a1))
  refine (tells_count .a2).confines (A := fun k _ => ⟨w.toNat, k⟩) (fun k => ?_)
    ((hs source w.toNat).leaves_of fun g => (g.get .a2).signed.toNat)
  refine (confines_copy _ (fun j _ => ?_) (by omega) (.inl rfl)).bind fun _ =>
    Leaves.confines fun _ => rfl
  exact (Int.natCast_add w.toNat j).symm

theorem confines_attend (c : Byte) (s : Monitor) :
    Confines ((Instruction.sys c).region ·) (attend c s : Action σ (Reply × Generator)) := by
  unfold Instruction.region
  dsimp only
  split
  · next hc =>
    rw [attend_of_ne hc (by decide)]
    exact (confines_rstr s.clock).map _
  · next hc =>
    rw [attend_of_ne hc (by decide)]
    exact (confines_memcpy s.clock).map _
  · next hline hcopy =>
    refine (leaves_attend (fun _ _ => rfl) (fun _ _ => rfl) (fun _ _ => rfl) s ?_).confines
    rintro call hcall (rfl | rfl)
    · exact absurd hcall hline
    · exact absurd hcall hcopy

/-! ### The end of a call -/

section

variable {m n : Machine Monitor}

theorem memory_settle (s : Monitor) (p : Except Fault (Reply × Generator) × Machine Monitor) :
    (settle (answered s p)).2.memory = p.2.memory := by
  obtain ⟨_ | ⟨_ | _ | _, _⟩, n⟩ := p
  · rfl
  · rfl
  · exact memory_setStatus _ _
  · exact memory_setStatus _ _

/-- A call that is to be made again has moved the program counter back. -/
theorem get_settle {r : Register} (hr : r ≠ .pc) (s : Monitor)
    (p : Except Fault (Reply × Generator) × Machine Monitor) :
    (settle (answered s p)).2.registers.get r = p.2.registers.get r := by
  obtain ⟨_ | ⟨_ | _ | _, _⟩, n⟩ := p
  · rfl
  · rfl
  · exact congrArg (RegisterFile.get · r) (registers_setStatus _ _)
  · exact (congrArg (RegisterFile.get · r) (registers_setStatus _ _)).trans
      (RegisterFile.get_set_of_ne _ _ hr.symm)

theorem leaves_systemCall {r : Register} (hrv : r ≠ .rv) (hpc : r ≠ .pc) (c : Byte) :
    Leaves (·.registers.get r) (systemCall system c) := by
  intro m
  cases hs : m.system with
  | none => rw [run_systemCall_of_none system c hs]
  | some s =>
    have hl : Leaves (·.registers.get r) (attend c s : Action Monitor (Reply × Generator)) :=
      leaves_attend (fun _ _ => RegisterFile.get_set_of_ne _ _ hrv.symm) (fun _ _ => rfl)
        (fun _ _ => rfl) s fun _ _ _ a b => (spares_storeByte a b).leaves
    rw [run_systemCall_eq c hs]
    exact (get_settle hpc s _).trans (hl { m with system := none })

theorem region_sys_congr {f g : RegisterFile} (h : ∀ r, r ≠ .pc → f.get r = g.get r) (c : Byte) :
    (Instruction.sys c).region f = (Instruction.sys c).region g := by
  unfold Instruction.region
  dsimp only
  rw [h .a0 (by decide), h .a1 (by decide), h .a2 (by decide)]

theorem confines_systemCall (c : Byte) :
    Confines ((Instruction.sys c).region ·) (systemCall system c) := by
  intro m u n h
  cases hs : m.system with
  | none =>
    rw [run_systemCall_of_none system c hs] at h
    cases h
  | some s =>
    rw [run_systemCall_eq c hs] at h
    rcases ha : (attend c s).run { m with system := none } with ⟨e | p, k⟩ <;> rw [ha] at h
    · cases h
    · have hmemory := memory_settle s (.ok p, k)
      have hregion := region_sys_congr (fun r hr => get_settle hr s (.ok p, k)) c
      rw [h] at hmemory hregion
      dsimp only at hmemory hregion ⊢
      rw [hmemory, hregion]
      have hattend := confines_attend c s ha
      exact hattend

/-! ### Steps and runs -/

theorem get_cycle {r : Register} (hr : r.isReadable = false) (hir : r ≠ .ir) (hdr : r ≠ .dr)
    (hflags : r ≠ .flags) (m : Machine Monitor) :
    (m.cycle system).2.registers.get r = m.registers.get r := by
  refine Action.get_cycle system hr hir hdr hflags (fun c => leaves_systemCall ?_ ?_ c) m <;>
    rintro rfl <;> cases hr

/-- The registers that no program can write hold what they held, and so do the flags but for two. -/
structure Untouched (m n : Machine Monitor) : Prop where
  codeEnd : n.registers.get .cb = m.registers.get .cb
  dataEnd : n.registers.get .db = m.registers.get .db
  joystick : n.registers.get .io = m.registers.get .io
  flags : (n.registers.get .flags).toNat / 4 = (m.registers.get .flags).toNat / 4

theorem untouched_of_registers (h : n.registers = m.registers) : Untouched m n := by
  refine ⟨?_, ?_, ?_, ?_⟩ <;> rw [h]

theorem Untouched.trans {l : Machine Monitor} (h : Untouched l m) (hm : Untouched m n) :
    Untouched l n :=
  ⟨hm.1.trans h.1, hm.2.trans h.2, hm.3.trans h.3, hm.4.trans h.4⟩

theorem untouched_cycle (m : Machine Monitor) : Untouched m (m.cycle system).2 where
  codeEnd := get_cycle rfl (by decide) (by decide) (by decide) m
  dataEnd := get_cycle rfl (by decide) (by decide) (by decide) m
  joystick := get_cycle rfl (by decide) (by decide) (by decide) m
  flags := by
    obtain ⟨i, n, hn, hc⟩ | ⟨e, n, hn, hc⟩ := cycle_cases m <;> rw [hc] <;> have hflags := hn.flags
    · change (n.registers.get .flags).toNat / 4 = _
      omega
    · dsimp only
      rw [fail_eq]
      have hfail := RegisterFile.flags_setErrorFlag n.registers
      dsimp only
      omega

/-- Only a reset, alone or to load a program, writes what a program cannot write. -/
theorem untouched_apply (op : Operation) (hreset : op ≠ .reset) (hload : ∀ p, op ≠ .load p)
    (m : Machine Monitor) : Untouched m (op.apply m) := by
  have hrefl : Untouched m m := untouched_of_registers rfl
  have hstatus {n : Machine Monitor} (status : Status) (h : Untouched m n) :
      Untouched m (n.setStatus status) :=
    h.trans (untouched_of_registers (registers_setStatus n status))
  have hcycle {n : Machine Monitor} (h : Untouched m n) : Untouched m (n.cycle system).2 :=
    h.trans (untouched_cycle n)
  cases op with
  | load p => exact absurd rfl (hload p)
  | reset => exact absurd rfl hreset
  | step => exact kept_step system hstatus hcycle hrefl
  | run signals limit =>
    exact kept_runScheduled system hstatus hcycle (fun _ h => h.trans (untouched_of_registers rfl))
      signals limit hrefl
  | pause => exact kept_pause hstatus hrefl
  | requestPause | addBreakpoint | removeBreakpoint | provideInput | elapse =>
    exact untouched_of_registers rfl

theorem untouched_foldl (ops : List Operation)
    (h : ∀ op ∈ ops, op ≠ .reset ∧ ∀ p, op ≠ .load p) (m : Machine Monitor) :
    Untouched m (ops.foldl Operation.apply m) := by
  induction ops generalizing m with
  | nil => exact untouched_of_registers rfl
  | cons op ops ih =>
    obtain ⟨hreset, hload⟩ := h op List.mem_cons_self
    exact (untouched_apply op hreset hload m).trans
      (ih (fun op hop => h op (List.mem_cons_of_mem _ hop)) _)

/-- A step that succeeds writes the registers that its instruction names, no bit of the flags but
the lowest, and the bytes that the instruction says; and whatever a program does to itself, no
operations short of a reset change the limits of code and data, the register of the joystick, or
other flags than two. -/
theorem footprint (m : Machine Monitor) :
    (∀ i n, m.step system = (.ok i, n) →
      (∀ r, r ≠ .pc → r ≠ .ir → r ≠ .dr → r ∉ i.written →
        n.registers.get r = m.registers.get r) ∧
      (n.registers.get .flags).toNat / 2 = (m.registers.get .flags).toNat / 2 ∧
      Memory.AgreesOutside (i.region n.registers) m.memory n.memory) ∧
    ∀ ops : List Operation, (∀ op ∈ ops, op ≠ .reset ∧ ∀ p, op ≠ .load p) →
      Untouched m (ops.foldl Operation.apply m) := by
  refine ⟨fun i n h => ?_, fun ops h => untouched_foldl ops h m⟩
  unfold Machine.step at h
  split at h
  · obtain ⟨hregisters, hmemory⟩ := footprint_of_cycle system
      (fun r c hrv hpc => leaves_systemCall hrv hpc c) confines_systemCall h
    rw [registers_setStatus] at hregisters
    rw [memory_setStatus] at hmemory
    refine ⟨hregisters, ?_, hmemory⟩
    obtain ⟨j, k, hk, hc⟩ | ⟨e, k, -, hc⟩ := cycle_cases (m.setStatus .executing) <;>
      rw [hc] at h <;> cases h
    have hflags := hk.flags
    rw [registers_setStatus] at hflags
    exact hflags
  · cases h

/-- The first instruction stores a word over the second one. -/
def rewritesItself : Machine Monitor :=
  { Machine.new (ofSeed 1) with
    memory := Memory.zero.place 0 (Instruction.access .sw .t0 none 4).encode
    registers := initialRegisters.set .t0 0xBEEF }

theorem footprint_of_rewritesItself :
    ∃ n, rewritesItself.step system = (.ok (.access .sw .t0 none 4), n) ∧
      n.memory.readWord 4 = .ok 0xBEEF ∧ n.memory.readByte 3 = .ok 4 ∧
      n.memory.readByte 6 = .ok 0 ∧ n.registers.get .t0 = 0xBEEF ∧
      Untouched rewritesItself
        ([.step, .run undisturbed 5].foldl Operation.apply rewritesItself) := by
  obtain ⟨hstep, hrun⟩ := footprint rewritesItself
  have hok : (rewritesItself.step system).1 = .ok (.access .sw .t0 none 4) := by decide +kernel
  have hword : (rewritesItself.step system).2.memory.readWord 4 = .ok 0xBEEF := by decide +kernel
  rcases hn : rewritesItself.step system with ⟨r, n⟩
  rw [hn] at hok hword
  obtain rfl : r = _ := hok
  obtain ⟨hregisters, -, hmemory⟩ := hstep _ n hn
  have hregion : (Instruction.access .sw .t0 none 4).region n.registers = ⟨4, 2⟩ := rfl
  rw [hregion] at hmemory
  refine ⟨n, rfl, hword, ?_, ?_, ?_, hrun _ ?_⟩
  · exact (hmemory 3 (by decide)).trans (by decide +kernel)
  · exact (hmemory 6 (by decide)).trans (by decide +kernel)
  · exact (hregisters .t0 (by decide) (by decide) (by decide) (by decide)).trans (by decide +kernel)
  · simp

end

end Monitor
end Minicomputer
