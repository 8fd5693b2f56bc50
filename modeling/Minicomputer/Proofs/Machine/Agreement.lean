import Minicomputer.Proofs.Machine.Composition

/-!
# Actions that respect a relation between machines

An instruction looks at the registers, the memory and the debug strings, and at nothing else in the
machine. So a relation between machines that implies the same registers, memory and debug strings,
and that survives each elementary change, survives a whole instruction, and the two machines see the
same result or the same fault. What an instruction leaves alone is the case of one machine and a
property that survives.
-/

set_option autoImplicit false

namespace Minicomputer.Action

variable {σ α β : Type} {R : Machine σ → Machine σ → Prop}

/-- The same result or the same fault, and machines that are related. -/
def Agree (R : Machine σ → Machine σ → Prop) (p q : Except Fault α × Machine σ) : Prop :=
  p.1 = q.1 ∧ R p.2 q.2

/-- On related machines the action goes the same way and leaves related machines. -/
def Respects (R : Machine σ → Machine σ → Prop) (x : Action σ α) : Prop :=
  ∀ ⦃m n : Machine σ⦄, R m n → Agree R (x.run m) (x.run n)

/-- A relation that survives what instructions are made of. The flags are written by tests only. -/
structure Congruence (R : Machine σ → Machine σ → Prop) : Prop where
  registers : ∀ {m n}, R m n → m.registers = n.registers
  memory : ∀ {m n}, R m n → m.memory = n.memory
  debugInfo : ∀ {m n}, R m n → m.debugInfo = n.debugInfo
  setRegister : ∀ {m n r}, r ≠ .flags → ∀ w, R m n → R (m.setRegister r w) (n.setRegister r w)
  setTestFlag : ∀ {m n} (value), R m n → R (m.setTestFlag value) (n.setTestFlag value)
  setMemory : ∀ {m n} (memory), R m n → R { m with memory } { n with memory }
  announce : ∀ {m n} (news), R m n → R (m.announce news) (n.announce news)
  print : ∀ {m n} (s), R m n → R (m.print s) (n.print s)
  note : ∀ {m n} (entry), R m n →
    R { m with log := m.log.push entry } { n with log := n.log.push entry }

/-- A property that survives what instructions are made of. -/
structure Stable (P : Machine σ → Prop) : Prop where
  setRegister : ∀ {m r}, r ≠ .flags → ∀ w, P m → P (m.setRegister r w)
  setTestFlag : ∀ {m} (value), P m → P (m.setTestFlag value)
  setMemory : ∀ {m} (memory), P m → P { m with memory }
  announce : ∀ {m} (news), P m → P (m.announce news)
  print : ∀ {m} (s), P m → P (m.print s)
  note : ∀ {m} (entry), P m → P { m with log := m.log.push entry }

/-- A machine with the property is related to itself. -/
theorem Stable.congruence {P : Machine σ → Prop} (h : Stable P) :
    Congruence fun m n => m = n ∧ P m where
  registers e := congrArg _ e.1
  memory e := congrArg _ e.1
  debugInfo e := congrArg _ e.1
  setRegister hr w e := ⟨e.1 ▸ rfl, h.setRegister hr w e.2⟩
  setTestFlag value e := ⟨e.1 ▸ rfl, h.setTestFlag value e.2⟩
  setMemory memory e := ⟨e.1 ▸ rfl, h.setMemory memory e.2⟩
  announce news e := ⟨e.1 ▸ rfl, h.announce news e.2⟩
  print s e := ⟨e.1 ▸ rfl, h.print s e.2⟩
  note entry e := ⟨e.1 ▸ rfl, h.note entry e.2⟩

theorem Agree.bind {x : Action σ α} {f : α → Action σ β} {m n : Machine σ}
    (hx : Agree R (x.run m) (x.run n)) (hf : ∀ a, Respects R (f a)) :
    Agree R ((x >>= f).run m) ((x >>= f).run n) := by
  change Agree R (ExceptT.bindCont f (x.run m).1 (x.run m).2)
    (ExceptT.bindCont f (x.run n).1 (x.run n).2)
  obtain ⟨hr, hm⟩ := hx
  rw [← hr]
  cases (x.run m).1 with
  | ok a => exact hf a hm
  | error e => exact ⟨rfl, hm⟩

theorem Respects.bind {x : Action σ α} {f : α → Action σ β} (hx : Respects R x)
    (hf : ∀ a, Respects R (f a)) : Respects R (x >>= f) :=
  fun _ _ h => (hx h).bind hf

theorem respects_pure (a : α) : Respects R (pure a) := fun _ _ h => ⟨rfl, h⟩

theorem respects_throw (e : Fault) : Respects R (throw e : Action σ α) := fun _ _ h => ⟨rfl, h⟩

theorem respects_ofMemory (x : Except MemoryFault α) : Respects R (ofMemory x) := by
  cases x with
  | ok a => exact respects_pure a
  | error e => exact respects_throw _

variable (hR : Congruence R)

include hR

/-! ### Elementary actions -/

theorem respects_register (r : Register) : Respects R (register r) :=
  fun _ _ h => ⟨congrArg (fun f : RegisterFile => Except.ok (f.get r)) (hR.registers h), h⟩

theorem respects_setRegister {r : Register} (hr : r ≠ .flags) (w : Word) :
    Respects R (setRegister r w) :=
  fun _ _ h => ⟨rfl, hR.setRegister hr w h⟩

theorem respects_setTestFlag (value : Bool) : Respects R (setTestFlag value) :=
  fun _ _ h => ⟨rfl, hR.setTestFlag value h⟩

theorem respects_announce (a : Announcement) : Respects R (announce a) :=
  fun _ _ h => ⟨rfl, hR.announce [a] h⟩

theorem respects_print (s : String) : Respects R (print s) :=
  fun _ _ h => ⟨rfl, hR.print s h⟩

theorem respects_loadByte (a : Int) : Respects R (loadByte a) := by
  intro m n h
  change Agree R ((ofMemory (m.memory.readByte a)).run m) ((ofMemory (n.memory.readByte a)).run n)
  rw [hR.memory h]
  exact respects_ofMemory _ h

theorem respects_loadWord (a : Int) : Respects R (loadWord a) := by
  intro m n h
  change Agree R ((ofMemory (m.memory.readWord a)).run m) ((ofMemory (n.memory.readWord a)).run n)
  rw [hR.memory h]
  exact respects_ofMemory _ h

theorem respects_loadText (a : Int) : Respects R (loadText a) := by
  intro m n h
  change Agree R ((ofMemory (m.memory.readText a)).run m) ((ofMemory (n.memory.readText a)).run n)
  rw [hR.memory h]
  exact respects_ofMemory _ h

theorem respects_storeByte (a : Int) (b : Byte) : Respects R (storeByte a b) := by
  intro m n h
  change Agree R ((ofMemory (m.writeByte a b) >>= fun m => set m : Action σ Unit).run m)
    ((ofMemory (n.writeByte a b) >>= fun m => set m : Action σ Unit).run n)
  unfold Machine.writeByte
  rw [hR.memory h]
  cases n.memory.writeByte a b with
  | ok memory => exact ⟨rfl, hR.announce _ (hR.setMemory memory h)⟩
  | error e => exact ⟨rfl, h⟩

theorem respects_storeWord (a : Int) (w : Word) : Respects R (storeWord a w) := by
  intro m n h
  change Agree R ((ofMemory (m.writeWord a w) >>= fun m => set m : Action σ Unit).run m)
    ((ofMemory (n.writeWord a w) >>= fun m => set m : Action σ Unit).run n)
  unfold Machine.writeWord
  rw [hR.memory h]
  cases n.memory.writeWord a w with
  | ok memory => exact ⟨rfl, hR.announce _ (hR.setMemory memory h)⟩
  | error e => exact ⟨rfl, h⟩

theorem respects_debug (index : Byte) : Respects R (debug index) := by
  intro m n h
  have hs : m.debugInfo.bind (·.debugString? index.toNat m.registers) =
      n.debugInfo.bind (·.debugString? index.toNat n.registers) := by
    rw [hR.registers h, hR.debugInfo h]
  refine ⟨rfl, ?_⟩
  change R { m with log := m.log.push _ } { n with log := n.log.push _ }
  rw [hs]
  exact hR.note _ h

/-! ### Whatever is made of them -/

theorem Composed.respects {x : Action σ α} (h : Composed x) : Respects R x := by
  induction h with
  | pure a => exact respects_pure a
  | throw e => exact respects_throw e
  | bind _ _ ihx ihf => exact ihx.bind ihf
  | register r => exact respects_register hR r
  | setRegister hr w => exact respects_setRegister hR hr w
  | setTestFlag value => exact respects_setTestFlag hR value
  | loadByte a => exact respects_loadByte hR a
  | loadWord a => exact respects_loadWord hR a
  | loadText a => exact respects_loadText hR a
  | storeByte a b => exact respects_storeByte hR a b
  | storeWord a w => exact respects_storeWord hR a w
  | print s => exact respects_print hR s
  | debug index => exact respects_debug hR index

/-- What a system call does is up to the operating system; every other instruction respects the
relation. -/
theorem respects_execute (S : System σ) {i : Instruction} (hc : i.Canonical)
    (hs : ∀ call, i ≠ .sys call) : Respects R (execute S i) :=
  (composed_execute S hc hs).respects hR

theorem respects_fetch : Respects R (fetch (σ := σ)) := by
  rw [fetch_eq]
  exact (respects_register hR .pc).bind fun pc => (respects_loadWord hR _).bind fun word =>
    (respects_setRegister hR (by decide) word).bind fun _ =>
      ((composed_loadData pc word).respects hR).bind fun data =>
        (respects_setRegister hR (by decide) data).bind fun _ =>
          (respects_announce hR _).bind fun _ => respects_pure _

end Minicomputer.Action
