import Minicomputer.Debugger
import Minicomputer.Proofs.Assembly.ImageSize
import Minicomputer.Proofs.Machine.Image
import Minicomputer.Proofs.Monitor.Conversation
import Minicomputer.Proofs.Monitor.Twin

/-!
# Loading erases history

A program that is loaded finds the machine as a new one, whatever has been done to it before.
Breakpoints, speed, listeners, log and generator are all that is left of the past, and of these only
breakpoints and generator matter to what can happen next.
-/

set_option autoImplicit false

namespace Minicomputer

namespace Machine

variable {σ : Type}

/-! ### A load is that of a new machine -/

/-- A machine like `k` with what `m` keeps when it is reset. -/
def renewed (S : System σ) (m k : Machine σ) (audience : Audience) : Machine σ :=
  { k with
    audience
    speed := m.speed
    system := m.system.map S.reset
    breakpoints := m.breakpoints
    log := m.log }

theorem reset_eq_new (S : System σ) (m : Machine σ) (s : σ) :
    ∃ audience, m.reset S = renewed S m ((new s).reset S) audience := by
  unfold reset
  dsimp only
  rw [setStatus_eq]
  exact ⟨_, rfl⟩

theorem load_eq_new (S : System σ) (p : Program) (m : Machine σ) (s : σ) :
    ∃ audience, m.load S p =
      (((new s).load S p).1, renewed S m ((new s).load S p).2 audience) := by
  obtain ⟨audience, hm⟩ := reset_eq_new S m s
  refine ⟨audience, ?_⟩
  unfold load
  rw [hm]
  generalize (new s).reset S = k
  dsimp only [renewed]
  cases k.memory.loadImage 0 p.code with
  | error e => rfl
  | ok memory =>
    dsimp only
    cases memory.loadImage p.code.length p.data with
    | error e => rfl
    | ok memory => rfl

/-- The same machine to a program, at least until it meets a breakpoint. -/
structure Matches (m n : Machine σ) : Prop where
  registers : n.registers = m.registers
  memory : n.memory = m.memory
  cycles : n.cycles = m.cycles
  status : n.status = m.status
  console : n.console = m.console
  fault : n.fault = m.fault
  pauseRequested : n.pauseRequested = m.pauseRequested
  debugInfo : n.debugInfo = m.debugInfo

theorem matches_renewed (S : System σ) (m n k : Machine σ) (a b : Audience) :
    Matches (renewed S m k a) (renewed S n k b) :=
  ⟨rfl, rfl, rfl, rfl, rfl, rfl, rfl, rfl⟩

/-! ### Requests -/

/-- What lies open to whoever has the machine. -/
structure Exposed where
  registers : RegisterFile
  memory : Memory
  cycles : Nat
  console : Console

/-- Whatever can be asked of a machine but to name who listens. -/
inductive Request where
  | load (p : Program)
  | reset
  | step
  | run (signals : Schedule) (limit : Nat)
  | pause
  | requestPause
  | setSpeed (speed : Nat)
  | addBreakpoint (a : Word)
  | removeBreakpoint (a : Word)
  | provideInput (s : String)
  | takeOutput
  | print (s : String)
  | setRegister (r : Register) (w : Word)
  | writeByte (a : Int) (b : Byte)
  | writeWord (a : Int) (w : Word)
  | edit (change : Exposed → Exposed)
  | elapse (milliseconds : Nat)

inductive Response where
  | done
  | loaded (result : Except Fault Unit)
  | stepped (result : Except Fault Instruction)
  | ran (cycles : Nat)
  | removed (found : Bool)
  | output (s : String)
  | written (result : Except MemoryFault Unit)

def edited (change : Exposed → Exposed) (m : Machine σ) : Machine σ :=
  let x := change ⟨m.registers, m.memory, m.cycles, m.console⟩
  { m with registers := x.registers, memory := x.memory, cycles := x.cycles, console := x.console }

def respondWritten (m : Machine σ) : Except MemoryFault (Machine σ) → Response × Machine σ
  | .ok n => (.written (.ok ()), n)
  | .error e => (.written (.error e), m)

def Request.perform (m : Machine Monitor) : Request → Response × Machine Monitor
  | load p => (m.load Monitor.system p).map .loaded id
  | reset => (.done, m.reset Monitor.system)
  | step => (m.step Monitor.system).map .stepped id
  | run signals limit => (m.runScheduled Monitor.system signals limit).map .ran id
  | pause => (.done, m.pause)
  | requestPause => (.done, m.requestPause)
  | setSpeed speed => (.done, { m with speed })
  | addBreakpoint a => (.done, m.addBreakpoint a)
  | removeBreakpoint a => (m.removeBreakpoint a).map .removed id
  | provideInput s => (.done, m.provideInput s)
  | takeOutput => m.takeOutput.map .output id
  | print s => (.done, m.print s)
  | setRegister r w => (.done, m.setRegister r w)
  | writeByte a b => respondWritten m (m.writeByte a b)
  | writeWord a w => respondWritten m (m.writeWord a w)
  | edit change => (.done, m.edited change)
  | elapse milliseconds => (.done, m.elapse milliseconds)

def performAll : List Request → Machine Monitor → List Response × Machine Monitor
  | [], m => ([], m)
  | r :: rs, m =>
    let (response, m) := r.perform m
    let (responses, m) := performAll rs m
    (response :: responses, m)

/-- No cycle that the request executes asks for the time. -/
def Request.Untimed (m : Machine Monitor) : Request → Prop
  | step => m.status.isResumable = true → ¬ m.Calls .timer
  | run signals limit => ∀ k < (m.runScheduled Monitor.system signals limit).1,
      ¬ (m.runScheduled Monitor.system signals k).2.Calls .timer
  | _ => True

def Untimed : List Request → Machine Monitor → Prop
  | [], _ => True
  | r :: rs, m => r.Untimed m ∧ Untimed rs (r.perform m).2

end Machine

namespace Monitor

open Minicomputer.Machine

variable {a b m n : Machine Monitor}

/-! ### Requests to twins -/

theorem rel_of_map_generator {s t : Option Monitor}
    (h : s.map (·.generator) = t.map (·.generator)) :
    Option.Rel (fun s t => s.generator = t.generator) s t := by
  cases s with
  | none =>
    cases t with
    | none => exact .none
    | some t => cases h
  | some s =>
    cases t with
    | none => cases h
    | some t => exact .some (Option.some.inj h)

/-- The clock may change. -/
theorem rel_map {f : Monitor → Monitor} {s t : Option Monitor}
    (hf : ∀ {s t : Monitor}, s.generator = t.generator → (f s).generator = (f t).generator)
    (h : Option.Rel (fun s t => s.generator = t.generator) s t) :
    Option.Rel (fun s t => s.generator = t.generator) (s.map f) (t.map f) := by
  cases h with
  | none => exact .none
  | some h => exact .some (hf h)

theorem Twin.reset (h : Twin a b m n) : Twin a b (m.reset system) (n.reset system) := by
  apply Twin.announce
  apply Twin.setStatus
  obtain ⟨news, entries, speed, system, ha, hl, hs, rfl⟩ := h
  exact ⟨news, entries, speed, system.map Monitor.reset, ha, hl, rel_map id hs, rfl⟩

theorem Twin.load (h : Twin a b m n) (p : Program) :
    (n.load system p).1 = (m.load system p).1 ∧
      Twin a b (m.load system p).2 (n.load system p).2 := by
  have hr := h.reset
  unfold Machine.load
  generalize m.reset Monitor.system = k at hr ⊢
  generalize n.reset Monitor.system = k' at hr ⊢
  obtain ⟨news, entries, speed, system, ha, hl, hs, rfl⟩ := hr
  dsimp only
  cases k.memory.loadImage 0 p.code with
  | error e => exact ⟨rfl, news, entries, speed, system, ha, hl, hs, rfl⟩
  | ok memory =>
    dsimp only
    cases memory.loadImage p.code.length p.data with
    | error e => exact ⟨rfl, news, entries, speed, system, ha, hl, hs, rfl⟩
    | ok memory => exact ⟨rfl, news, entries, speed, system, ha, hl, hs, rfl⟩

theorem Twin.pause (h : Twin a b m n) : Twin a b m.pause n.pause := by
  unfold Machine.pause
  rw [h.status]
  split <;> first | exact h.setStatus .ready | exact h

/-- What is written, if it can be, is written in both. -/
theorem Twin.stored (h : Twin a b m n) {news : List Announcement}
    {r s : Except MemoryFault Memory} {x y : Except MemoryFault (Machine Monitor)}
    (hx : x = do return { m with memory := ← r }.announce news)
    (hy : y = do return { n with memory := ← s }.announce news) (hs : s = r) :
    (respondWritten n y).1 = (respondWritten m x).1 ∧
      Twin a b (respondWritten m x).2 (respondWritten n y).2 := by
  subst hx hy hs
  cases s with
  | ok memory => exact ⟨rfl, (h.setMemory memory).announce news⟩
  | error e => exact ⟨rfl, h⟩

/-- A request gets the same response from both, and leaves twins. -/
theorem Twin.perform (h : Twin a b m n) {r : Request} (ht : r.Untimed m) :
    (r.perform n).1 = (r.perform m).1 ∧ Twin a b (r.perform m).2 (r.perform n).2 := by
  cases r with
  | load p =>
    obtain ⟨hresult, hm⟩ := h.load p
    exact ⟨congrArg Response.loaded hresult, hm⟩
  | reset => exact ⟨rfl, h.reset⟩
  | step =>
    obtain ⟨hresult, hm⟩ := h.step ht
    exact ⟨congrArg Response.stepped hresult.symm, hm⟩
  | run signals limit =>
    obtain ⟨hcount, hm⟩ := h.runScheduled ht
    exact ⟨congrArg Response.ran hcount, hm⟩
  | pause => exact ⟨rfl, h.pause⟩
  | requestPause => exact ⟨rfl, h.setPauseRequested true⟩
  | setRegister r w => exact ⟨rfl, h.setRegister r w⟩
  | print s => exact ⟨rfl, h.print s⟩
  | writeByte address value =>
    have hresult : n.memory.writeByte address value = m.memory.writeByte address value :=
      congrArg (·.writeByte address value) ((congruence_twin a b).memory h).symm
    exact h.stored rfl rfl hresult
  | writeWord address value =>
    have hresult : n.memory.writeWord address value = m.memory.writeWord address value :=
      congrArg (·.writeWord address value) ((congruence_twin a b).memory h).symm
    exact h.stored rfl rfl hresult
  | setSpeed speed =>
    obtain ⟨news, entries, _, system, ha, hl, hs, rfl⟩ := h
    exact ⟨rfl, news, entries, speed, system, ha, hl, hs, rfl⟩
  | addBreakpoint | removeBreakpoint | provideInput | takeOutput | edit =>
    obtain ⟨news, entries, speed, system, ha, hl, hs, rfl⟩ := h
    exact ⟨rfl, news, entries, speed, system, ha, hl, hs, rfl⟩
  | elapse milliseconds =>
    obtain ⟨news, entries, speed, system, ha, hl, hs, rfl⟩ := h
    exact ⟨rfl, news, entries, speed, system.map _, ha, hl, rel_map id hs, rfl⟩

theorem Twin.performAll (h : Twin a b m n) {rs : List Request} (ht : Untimed rs m) :
    (Machine.performAll rs n).1 = (Machine.performAll rs m).1 ∧
      Twin a b (Machine.performAll rs m).2 (Machine.performAll rs n).2 := by
  induction rs generalizing m n with
  | nil => exact ⟨rfl, h⟩
  | cons r rs ih =>
    obtain ⟨hr, hrs⟩ := ht
    obtain ⟨hresponse, hm⟩ := h.perform hr
    obtain ⟨hresponses, hm'⟩ := ih hm hrs
    exact ⟨congrArg₂ List.cons hresponse hresponses, hm'⟩

/-! ### Loads -/

theorem twin_renewed (hg : m.system.map (·.generator) = n.system.map (·.generator))
    (hb : n.breakpoints = m.breakpoints) (k : Machine Monitor) (audience audience' : Audience) :
    Twin (renewed system m k audience) (renewed system n k audience')
      (renewed system m k audience) (renewed system n k audience') := by
  have hs : Option.Rel (fun s t => s.generator = t.generator) (m.system.map Monitor.reset)
      (n.system.map Monitor.reset) := rel_map id (rel_of_map_generator hg)
  refine ⟨[], #[], n.speed, n.system.map Monitor.reset, rfl, Array.append_empty.symm, hs, ?_⟩
  rw [Array.append_empty]
  unfold renewed
  rw [hb]
  rfl

/-- What a program finds in the machine, of which it is all that there is. -/
theorem image_of_load {p : Program} (h : (m.load system p).1 = .ok ()) :
    (m.load system p).2.memory.bytes.toList =
        p.code ++ (p.data ++ List.replicate (memorySize - p.imageSize) 0) ∧
      (m.load system p).2.registers.get .cb = UInt16.ofNat p.code.length - 1 ∧
      (m.load system p).2.registers.get .db = UInt16.ofNat (p.code.length + p.data.length) - 1 ∧
      (m.load system p).2.registers.get .bp = UInt16.ofNat (p.code.length + p.data.length) ∧
      (m.load system p).2.registers.get .sp = 4096 := by
  have hfits := (load_eq_ok_iff system p m).mp h
  refine ⟨toList_load system m hfits, ?_⟩
  rw [load_of_fits system m hfits]
  dsimp only
  have hsp : (m.reset system).registers.get .sp = 4096 := by
    unfold Machine.reset
    dsimp only
    rw [setStatus_eq]
    exact RegisterFile.get_set_self _ _ _
  refine ⟨?_, ?_, ?_, ?_⟩
  · rw [RegisterFile.get_set_of_ne _ _ (by decide), RegisterFile.get_set_of_ne _ _ (by decide),
      RegisterFile.get_set_self]
  · rw [RegisterFile.get_set_of_ne _ _ (by decide), RegisterFile.get_set_self]
    rfl
  · rw [RegisterFile.get_set_self]
    rfl
  · rw [RegisterFile.get_set_of_ne _ _ (by decide), RegisterFile.get_set_of_ne _ _ (by decide),
      RegisterFile.get_set_of_ne _ _ (by decide), hsp]

/-- A debugger that is reset has the machine that it would have if it were new. -/
theorem reset_debugger (d : Debugger) (s : Monitor) :
    ∃ audience, d.reset = { Debugger.new s d.program with
      machine := renewed system d.machine (Debugger.new s d.program).machine audience
      quitting := d.quitting
      scroll := d.scroll
      notice := d.reset.notice } := by
  obtain ⟨audience, h⟩ := load_eq_new system d.program d.machine s
  refine ⟨audience, ?_⟩
  have hmachine : d.reset.machine =
      renewed system d.machine (Debugger.new s d.program).machine audience :=
    congrArg Prod.snd h
  rw [← hmachine]
  rfl

/-- A load leaves nothing of what was done to a machine before: machines with equal generators end
alike, and with equal breakpoints nobody can tell one from the other without asking the time. So
does a debugger that is reset, which is as new but for what a machine keeps. -/
theorem load_forgets (hg : m.system.map (·.generator) = n.system.map (·.generator)) (p : Program) :
    (n.load system p).1 = (m.load system p).1 ∧
      Matches (m.load system p).2 (n.load system p).2 ∧
      ((m.load system p).1 = .ok () →
        (m.load system p).2.memory.bytes.toList =
            p.code ++ (p.data ++ List.replicate (memorySize - p.imageSize) 0) ∧
          (m.load system p).2.registers.get .cb = UInt16.ofNat p.code.length - 1 ∧
          (m.load system p).2.registers.get .db =
            UInt16.ofNat (p.code.length + p.data.length) - 1 ∧
          (m.load system p).2.registers.get .bp = UInt16.ofNat (p.code.length + p.data.length) ∧
          (m.load system p).2.registers.get .sp = 4096) ∧
      (n.breakpoints = m.breakpoints → ∀ rs, Untimed rs (m.load system p).2 →
        (Machine.performAll rs (n.load system p).2).1 =
            (Machine.performAll rs (m.load system p).2).1 ∧
          Twin (m.load system p).2 (n.load system p).2
            (Machine.performAll rs (m.load system p).2).2
            (Machine.performAll rs (n.load system p).2).2) ∧
      ∀ (d : Debugger) (s : Monitor), ∃ audience, d.reset = { Debugger.new s d.program with
        machine := renewed system d.machine (Debugger.new s d.program).machine audience
        quitting := d.quitting
        scroll := d.scroll
        notice := d.reset.notice } := by
  obtain ⟨audience, hm⟩ := load_eq_new system p m default
  obtain ⟨audience', hn⟩ := load_eq_new system p n default
  refine ⟨?_, ?_, image_of_load, fun hb rs ht => ?_, reset_debugger⟩
  · rw [hm, hn]
  · rw [hm, hn]
    exact matches_renewed system m n _ audience audience'
  · have htwin : Twin (m.load system p).2 (n.load system p).2 (m.load system p).2
        (n.load system p).2 := by
      rw [hm, hn]
      exact twin_renewed hg hb _ audience audience'
    exact htwin.performAll ht

/-- A program that reads a character and ends. -/
def oneRead : Program := .plain [0x00, 0x05, 0x00, 0x00] [] ""

/-- A machine with input, flags, memory and a wish to pause that are not the program's. -/
def worn : Machine Monitor :=
  (performAll [.provideInput "x\n", .requestPause, .setRegister .flags 3, .writeByte 100 7]
    (Machine.new (ofSeed 1))).2

/-- Input for the program, which is run step by step. -/
def steps : List Request := [.provideInput "y", .step, .step]

theorem untimed_steps : Untimed steps (worn.load system oneRead).2 := by
  refine ⟨trivial, fun _ h => ?_, fun _ h => ?_, trivial⟩
  · have hp : ((Request.provideInput "y").perform (worn.load system oneRead).2).2.Presents 5 0 :=
      ⟨by decide +kernel, by decide +kernel⟩
    exact absurd (ofSelector?_of_calls hp (c := 5) (by decide) h) (by decide)
  · have hp : (Request.step.perform ((Request.provideInput "y").perform
        (worn.load system oneRead).2).2).2.Presents 0 0 := ⟨by decide +kernel, by decide +kernel⟩
    exact absurd (ofSelector?_of_calls hp (c := 0) (by decide) h) (by decide)

theorem load_forgets_worn :
    let n : Machine Monitor := Machine.new (ofSeed 1)
    worn.system.map (·.generator) = n.system.map (·.generator) ∧
      worn.console.input ≠ n.console.input ∧
      (performAll steps (n.load system oneRead).2).1 =
        (performAll steps (worn.load system oneRead).2).1 ∧
      (performAll steps (n.load system oneRead).2).2.registers.get .rv = 121 := by
  have hg : worn.system.map (·.generator) =
      (Machine.new (ofSeed 1)).system.map (·.generator) := rfl
  have hinput : worn.console.input ≠ (Machine.new (ofSeed 1)).console.input := by decide +kernel
  have hread : (performAll steps (worn.load system oneRead).2).2.registers.get .rv = 121 := by
    decide +kernel
  obtain ⟨-, -, -, hlater, -⟩ := load_forgets hg oneRead
  obtain ⟨hresponses, htwin⟩ := hlater rfl steps untimed_steps
  refine ⟨hg, hinput, hresponses, ?_⟩
  rw [htwin.registers]
  exact hread

end Monitor
end Minicomputer
