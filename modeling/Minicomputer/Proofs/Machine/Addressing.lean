import Minicomputer.Proofs.Machine.BlockCopy
import Minicomputer.Proofs.Machine.TestFlag

/-!
# Loads and stores

Sixteen forms of instruction move a byte or a word between a register and memory. They differ in how
they spell the address, as a constant or in a register, with an offset or without. The forms that
come to the same address share the cell there: what one of them has stored is what another one
loads.
-/

set_option autoImplicit false

namespace Minicomputer

inductive Width where
  | byte | word
  deriving DecidableEq, Repr

namespace Width

def size : Width → Nat
  | byte => 1
  | word => 2

/-- What a register holds when it loads from memory. -/
def read (m : Memory) (a : Int) : Width → Except MemoryFault Word
  | byte => (m.readByte a).map Word.signExtend
  | word => m.readWord a

/-- The memory after a register has been stored. -/
def write (m : Memory) (a : Int) (w : Word) : Width → Except MemoryFault Memory
  | byte => m.writeByte a w.low
  | word => m.writeWord a w

/-- What is left of a value that was stored and loaded again. -/
def kept (w : Word) : Width → Word
  | byte => Word.signExtend w.low
  | word => w

end Width

namespace Memory

variable {m n : Memory} {a : Int} {w : Word}

theorem exists_readByte_iff : (∃ b, m.readByte a = .ok b) ↔ 0 ≤ a ∧ a < 4096 := by
  unfold readByte
  rw [index_eq]
  split
  · next h => exact iff_of_true ⟨_, rfl⟩ h
  · next h => exact iff_of_false nofun h

theorem exists_writeByte_iff {b : Byte} : (∃ n, m.writeByte a b = .ok n) ↔ 0 ≤ a ∧ a < 4096 := by
  unfold writeByte
  rw [index_eq]
  split
  · next h => exact iff_of_true ⟨_, rfl⟩ h
  · next h => exact iff_of_false nofun h

theorem exists_readWord_iff : (∃ w, m.readWord a = .ok w) ↔ 0 ≤ a ∧ a + 1 < 4096 := by
  constructor
  · rintro ⟨w, h⟩
    obtain ⟨i, rfl, hi⟩ := hasWord_of_readWord h
    omega
  · intro h
    obtain ⟨high, hhigh⟩ := (exists_readByte_iff (m := m)).mpr ⟨h.1, by omega⟩
    obtain ⟨low, hlow⟩ := (exists_readByte_iff (m := m) (a := a + 1)).mpr ⟨by omega, h.2⟩
    rw [readWord, hhigh]
    change ∃ w, (m.readByte (a + 1) >>= _) = _
    rw [hlow]
    exact ⟨_, rfl⟩

theorem exists_writeWord_iff : (∃ n, m.writeWord a w = .ok n) ↔ 0 ≤ a ∧ a + 1 < 4096 := by
  constructor
  · rintro ⟨n, h⟩
    obtain ⟨half, hhigh, hlow⟩ := writeByte_of_writeWord h
    have hfirst := exists_writeByte_iff.mp ⟨half, hhigh⟩
    have hsecond := exists_writeByte_iff.mp ⟨n, hlow⟩
    exact ⟨hfirst.1, hsecond.2⟩
  · rintro ⟨h, hlt⟩
    obtain ⟨n, hn, -⟩ := m.exists_writeWord (a := a.toNat) (by omega) w
    rw [Int.toNat_of_nonneg h] at hn
    exact ⟨n, hn⟩

/-- The high byte is stored first, and all other bytes stay as they are. -/
theorem readByte_of_writeWord (h : m.writeWord a w = .ok n) (k : Int) :
    n.readByte k = if k = a + 1 then .ok w.low else if k = a then .ok w.high else m.readByte k := by
  obtain ⟨half, hhigh, hlow⟩ := writeByte_of_writeWord h
  rw [readByte_of_writeByte hlow, readByte_of_writeByte hhigh]

theorem readWord_of_writeWord (h : m.writeWord a w = .ok n) : n.readWord a = .ok w := by
  have hread := readByte_of_writeWord h
  rw [readWord, hread a, hread (a + 1), if_neg (by omega), if_pos rfl, if_pos rfl]
  exact congrArg Except.ok (Word.ofBytes_high_low w)

end Memory

namespace Width

variable {m n : Memory} {a : Int} {w : Word} {width : Width}

theorem exists_read_iff (ha : 0 ≤ a) :
    (∃ w, width.read m a = .ok w) ↔ a + width.size ≤ 4096 := by
  cases width with
  | byte =>
    have hmap : (∃ w, (m.readByte a).map Word.signExtend = .ok w) ↔ ∃ b, m.readByte a = .ok b := by
      cases m.readByte a with
      | error e => exact iff_of_false nofun nofun
      | ok b => exact iff_of_true ⟨_, rfl⟩ ⟨b, rfl⟩
    rw [read, hmap, Memory.exists_readByte_iff, size]
    omega
  | word =>
    rw [read, Memory.exists_readWord_iff, size]
    omega

theorem exists_write_iff (ha : 0 ≤ a) :
    (∃ n, width.write m a w = .ok n) ↔ a + width.size ≤ 4096 := by
  cases width with
  | byte =>
    rw [write, Memory.exists_writeByte_iff, size]
    omega
  | word =>
    rw [write, Memory.exists_writeWord_iff, size]
    omega

theorem read_of_write (h : width.write m a w = .ok n) : width.read n a = .ok (width.kept w) := by
  cases width with
  | byte =>
    rw [read, Memory.readByte_of_writeByte h, if_pos rfl]
    rfl
  | word => exact Memory.readWord_of_writeWord h

theorem readByte_of_write (h : width.write m a w = .ok n) {k : Int}
    (hk : k < a ∨ a + width.size ≤ k) : n.readByte k = m.readByte k := by
  cases width with
  | byte =>
    rw [Memory.readByte_of_writeByte h, if_neg]
    simp only [size] at hk
    omega
  | word =>
    simp only [size] at hk
    rw [Memory.readByte_of_writeWord h, if_neg (by omega), if_neg (by omega)]

end Width

/-! ### The sixteen forms -/

/-- Where an address begins. -/
inductive Base where
  | constant (address : Word)
  | register (r : Register)

def Base.value (f : RegisterFile) : Base → Word
  | constant address => address
  | register r => f.get r

/-- What a load or a store does, whatever its form. -/
structure Transfer where
  isStore : Bool
  width : Width
  reg : Register
  base : Base
  offset : Option Register

/-- The address that a transfer comes to: the offset is a signed number, and the sum wraps. -/
def Transfer.address (t : Transfer) (f : RegisterFile) : Int :=
  ((t.base.value f).toNat + (f.distance t.offset).signed) % 65536

/-- The transfer that an instruction is. -/
def Instruction.transfer? : Instruction → Option Transfer
  | access .lw reg offset address => some ⟨false, .word, reg, .constant address, offset⟩
  | access .lb reg offset address => some ⟨false, .byte, reg, .constant address, offset⟩
  | access .sw reg offset address => some ⟨true, .word, reg, .constant address, offset⟩
  | access .sb reg offset address => some ⟨true, .byte, reg, .constant address, offset⟩
  | indexed .lwr reg base offset => some ⟨false, .word, reg, .register base, offset⟩
  | indexed .lbr reg base offset => some ⟨false, .byte, reg, .register base, offset⟩
  | indexed .swr reg base offset => some ⟨true, .word, reg, .register base, offset⟩
  | indexed .sbr reg base offset => some ⟨true, .byte, reg, .register base, offset⟩
  | _ => none

/-- The registers that a transfer names are those that a program can read. -/
def Transfer.Readable (t : Transfer) : Prop :=
  t.reg.isReadable = true ∧ (∀ r, t.base = .register r → r.isReadable = true) ∧
    ∀ r ∈ t.offset, r.isReadable = true

theorem Transfer.readable_of_canonical {t : Transfer} {i : Instruction} (ht : i.transfer? = some t)
    (hi : i.Canonical) : t.Readable := by
  cases i with
  | access op reg off address =>
    obtain ⟨hreg, hoff, -⟩ := hi
    cases op <;> cases ht <;> exact ⟨hreg, nofun, hoff⟩
  | indexed op reg base off =>
    obtain ⟨hreg, hbase, hoff⟩ := hi
    cases op <;> cases ht <;> exact ⟨hreg, fun r hr => Base.register.inj hr ▸ hbase,
      fun r hr => (hoff r hr).1⟩
  | _ => cases ht

theorem Transfer.address_congr {t : Transfer} (ht : t.Readable) {f g : RegisterFile}
    (h : ∀ r : Register, r.isReadable = true → f.get r = g.get r) : t.address f = t.address g := by
  obtain ⟨_, width, reg, base, off⟩ := t
  obtain ⟨-, hbase, hoff⟩ := ht
  have hvalue : base.value f = base.value g := by
    cases base with
    | constant address => rfl
    | register r => exact h r (hbase r rfl)
  have hdistance : f.distance off = g.distance off := by
    cases off with
    | none => rfl
    | some r => exact h r (hoff r rfl)
  rw [address, address, hvalue, hdistance]

theorem Transfer.address_nonneg (t : Transfer) (f : RegisterFile) : 0 ≤ t.address f :=
  Int.emod_nonneg _ (by decide)

theorem Action.offset_eq (base distance : Word) :
    offset base distance = ((base.toNat : Int) + distance.signed) % 65536 := by
  have hb := Word.toNat_lt base
  have hd := Word.toNat_lt distance
  rw [offset, UInt16.toNat_add, Word.signed]
  split <;> omega

namespace Action

variable {σ : Type} {m n : Machine σ} {i : Instruction} {t : Transfer} {a : Int}

/-- A transfer at an address. -/
def transfer (t : Transfer) (a : Int) : Action σ Unit :=
  match t.isStore, t.width with
  | false, .word => loadWordTo t.reg a
  | false, .byte => loadByteTo t.reg a
  | true, .word => storeWordOf t.reg a
  | true, .byte => storeByteOf t.reg a

/-- The sixteen forms are four actions, each at the address that the form comes to. -/
theorem run_execute_transfer (S : System σ) (h : i.transfer? = some t) :
    (execute S i).run m = (transfer t (t.address m.registers)).run m := by
  have hconstant (op : AccessOp) (reg : Register) (off : Option Register) (address : Word) :
      (execute S (.access op reg off address)).run m =
        (access op reg address (offset address (m.registers.distance off))).run m :=
    run_bind_of_ok (tells_distance off m)
  have hregister (op : IndexedOp) (reg base : Register) (off : Option Register) :
      (execute S (.indexed op reg base off)).run m =
        (indexed op reg (offset (m.registers.get base) (m.registers.distance off))).run m :=
    (run_bind_of_ok (tells_register base m)).trans (run_bind_of_ok (tells_distance off m))
  cases i with
  | access op reg off address =>
    rw [hconstant, offset_eq]
    cases op <;> cases h <;> rfl
  | indexed op reg base off =>
    rw [hregister, offset_eq]
    cases op <;> cases h <;> rfl
  | _ => cases h

theorem run_transfer_load (ht : t.isStore = false) :
    (transfer t a).run m =
      (ofMemory (t.width.read m.memory a) >>= setRegister t.reg : Action σ Unit).run m := by
  obtain ⟨_, width, reg, base, off⟩ := t
  cases ht
  cases width with
  | byte =>
    have hload := run_loadByte a m
    unfold Width.read
    cases hb : m.memory.readByte a with
    | error e =>
      rw [hb] at hload
      exact run_bind_of_error hload
    | ok b =>
      rw [hb] at hload
      exact run_bind_of_ok hload
  | word => rfl

theorem run_transfer_store (ht : t.isStore = true) :
    ∃ news, (transfer t a).run m =
      (ofMemory (t.width.write m.memory a (m.registers.get t.reg)) >>= fun memory =>
        modify fun m => { m with memory }.announce news : Action σ Unit).run m := by
  obtain ⟨_, width, reg, base, off⟩ := t
  cases ht
  have hreg : (register reg).run m = (.ok (m.registers.get reg), m) := rfl
  cases width with
  | byte =>
    have hrun : (transfer ⟨true, .byte, reg, base, off⟩ a).run m =
        (storeByte a (m.registers.get reg).low).run m := run_bind_of_ok hreg
    refine ⟨[.memoryUpdated (Word.ofInt a) (m.registers.get reg).low], ?_⟩
    rw [hrun, run_storeByte]
    unfold Width.write
    generalize m.memory.writeByte a (m.registers.get reg).low = written
    cases written <;> rfl
  | word =>
    have hrun : (transfer ⟨true, .word, reg, base, off⟩ a).run m =
        (storeWord a (m.registers.get reg)).run m := run_bind_of_ok hreg
    refine ⟨[.memoryUpdated (Word.ofInt a) (m.registers.get reg).high,
      .memoryUpdated (Word.ofInt (a + 1)) (m.registers.get reg).low], ?_⟩
    rw [hrun, run_storeWord]
    unfold Width.write
    generalize m.memory.writeWord a (m.registers.get reg) = written
    cases written <;> rfl

end Action

namespace Machine

variable {σ : Type} {m n : Machine σ} {i : Instruction} {t : Transfer} {a : Int}

/-- The next cycle executes a load or a store that comes to an address. -/
def Transfers (m : Machine σ) (i : Instruction) (t : Transfer) (a : Int) : Prop :=
  m.Upcoming i ∧ i.transfer? = some t ∧ a = t.address (m.found i)

/-- A cycle does what its transfer does where the words of the instruction have been fetched, which
changes none of the registers that the transfer names. -/
theorem Transfers.exists_run (S : System σ) (h : m.Transfers i t a) :
    ∃ word k, k.memory = m.memory ∧ k.registers.get t.reg = (m.found i).get t.reg ∧
      (Action.fetchAndExecute S).run m = Action.conclude word i ((Action.transfer t a).run k) := by
  obtain ⟨⟨word, data, hp, hd⟩, ht, rfl⟩ := h
  -- The fetch writes `ir` and `dr`, which no instruction can name.
  have hget (r : Register) (hr : r.isReadable = true) :
      (m.poised word data i).registers.get r = (m.found i).get r := by
    apply get_found <;> rintro rfl <;> cases hr
  have hreadable := Transfer.readable_of_canonical ht (Instruction.canonical_of_decode hd)
  refine ⟨word, m.poised word data i, rfl, hget _ hreadable.1, ?_⟩
  rw [Action.run_fetchAndExecute_of_some S hp hd, Action.run_execute_transfer S ht,
    Transfer.address_congr hreadable hget]

theorem Transfers.load (S : System σ) (h : m.Transfers i t a) (ht : t.isStore = false) {w : Word}
    (hw : t.width.read m.memory a = .ok w) :
    ∃ n, m.cycle S = (.ok i, n) ∧ n.registers.get t.reg = w ∧ n.memory = m.memory := by
  obtain ⟨word, k, hmemory, -, hrun⟩ := h.exists_run S
  rw [Action.run_transfer_load ht, hmemory, hw] at hrun
  exact ⟨_, Action.cycle_of_ok S hrun, RegisterFile.get_set_self _ _ _, hmemory⟩

theorem Transfers.load_error (S : System σ) (h : m.Transfers i t a) (ht : t.isStore = false)
    {e : MemoryFault} (he : t.width.read m.memory a = .error e) :
    (m.cycle S).1 = .error (.memory e) := by
  obtain ⟨word, k, hmemory, -, hrun⟩ := h.exists_run S
  rw [Action.run_transfer_load ht, hmemory, he] at hrun
  exact congrArg Prod.fst (Action.cycle_of_error S hrun)

theorem Transfers.store (S : System σ) (h : m.Transfers i t a) (ht : t.isStore = true)
    {memory : Memory} (hw : t.width.write m.memory a ((m.found i).get t.reg) = .ok memory) :
    ∃ n, m.cycle S = (.ok i, n) ∧ n.memory = memory := by
  obtain ⟨word, k, hmemory, hreg, hrun⟩ := h.exists_run S
  obtain ⟨news, hstore⟩ := Action.run_transfer_store (m := k) (a := a) ht
  rw [hstore, hmemory, hreg, hw] at hrun
  exact ⟨_, Action.cycle_of_ok S hrun, rfl⟩

theorem Transfers.store_error (S : System σ) (h : m.Transfers i t a) (ht : t.isStore = true)
    {e : MemoryFault} (he : t.width.write m.memory a ((m.found i).get t.reg) = .error e) :
    (m.cycle S).1 = .error (.memory e) := by
  obtain ⟨word, k, hmemory, hreg, hrun⟩ := h.exists_run S
  obtain ⟨news, hstore⟩ := Action.run_transfer_store (m := k) (a := a) ht
  rw [hstore, hmemory, hreg, he] at hrun
  exact congrArg Prod.fst (Action.cycle_of_error S hrun)

theorem Transfers.cases (S : System σ) (h : m.Transfers i t a) :
    a + t.width.size ≤ 4096 ∧ (∃ n, m.cycle S = (.ok i, n)) ∨
      4096 < a + t.width.size ∧ ∃ e, (m.cycle S).1 = .error (.memory e) := by
  have ha : 0 ≤ a := by
    rw [h.2.2]
    exact t.address_nonneg _
  cases ht : t.isStore with
  | false =>
    have hfits : (∃ w, t.width.read m.memory a = .ok w) ↔ a + t.width.size ≤ 4096 :=
      Width.exists_read_iff ha
    cases hw : t.width.read m.memory a with
    | ok w =>
      obtain ⟨n, hn, -⟩ := h.load S ht hw
      exact .inl ⟨hfits.mp ⟨w, hw⟩, n, hn⟩
    | error e =>
      refine .inr ⟨?_, e, h.load_error S ht hw⟩
      rw [hw] at hfits
      exact Int.lt_of_not_ge (hfits.not.mp nofun)
  | true =>
    have hfits : (∃ n, t.width.write m.memory a ((m.found i).get t.reg) = .ok n) ↔
        a + t.width.size ≤ 4096 := Width.exists_write_iff ha
    cases hw : t.width.write m.memory a ((m.found i).get t.reg) with
    | ok memory =>
      obtain ⟨n, hn, -⟩ := h.store S ht hw
      exact .inl ⟨hfits.mp ⟨memory, hw⟩, n, hn⟩
    | error e =>
      refine .inr ⟨?_, e, h.store_error S ht hw⟩
      rw [hw] at hfits
      exact Int.lt_of_not_ge (hfits.not.mp nofun)

/-- What a store that succeeded has made of the memory. -/
theorem Transfers.write_of_cycle (S : System σ) (h : m.Transfers i t a) (ht : t.isStore = true)
    (hn : m.cycle S = (.ok i, n)) :
    t.width.write m.memory a ((m.found i).get t.reg) = .ok n.memory := by
  cases hw : t.width.write m.memory a ((m.found i).get t.reg) with
  | error e =>
    have herror := h.store_error S ht hw
    rw [hn] at herror
    cases herror
  | ok memory =>
    obtain ⟨k, hk, rfl⟩ := h.store S ht hw
    rw [hn] at hk
    cases hk
    rfl

/-- The next cycle executes a load that leaves a value in its register. -/
def Loads (S : System σ) (m : Machine σ) (i : Instruction) (t : Transfer) (w : Word) : Prop :=
  ∃ n, m.cycle S = (.ok i, n) ∧ n.registers.get t.reg = w ∧ n.memory = m.memory

/-- A transfer succeeds if its bytes are all in memory, whatever its form, and is a fault otherwise.
A store writes these bytes and no other. A load that comes to the same address, in any of the forms
and at any time until memory changes again, finds the word or the byte that was stored; one that
loads a byte of a stored word finds the half of it that is there, the high one in front. -/
theorem forms_share_cells (S : System σ) {s : Transfer} (h : m.Transfers i s a) :
    ((∃ n, m.cycle S = (.ok i, n)) ↔ a + s.width.size ≤ 4096) ∧
    ((∃ e, (m.cycle S).1 = .error (.memory e)) ↔ 4096 < a + s.width.size) ∧
    ∀ n, s.isStore = true → m.cycle S = (.ok i, n) →
      (∀ c : Int, c < a ∨ a + s.width.size ≤ c → n.memory.readByte c = m.memory.readByte c) ∧
      ∀ (k : Machine σ) (j : Instruction) (l : Transfer) (b : Int), k.memory = n.memory →
        k.Transfers j l b → l.isStore = false →
          (l.width = s.width → b = a →
            k.Loads S j l (s.width.kept ((m.found i).get s.reg))) ∧
          (s.width = .word → l.width = .byte →
            (b = a → k.Loads S j l (Word.signExtend ((m.found i).get s.reg).high)) ∧
            (b = a + 1 → k.Loads S j l (Word.signExtend ((m.found i).get s.reg).low))) := by
  refine ⟨?_, ?_, fun n hs hn => ?_⟩
  · obtain ⟨hfits, hok⟩ | ⟨hfits, e, he⟩ := h.cases S
    · exact iff_of_true hok hfits
    · refine iff_of_false ?_ (Int.not_le.mpr hfits)
      rintro ⟨n, hn⟩
      rw [hn] at he
      cases he
  · obtain ⟨hfits, n, hn⟩ | ⟨hfits, he⟩ := h.cases S
    · refine iff_of_false ?_ (Int.not_lt.mpr hfits)
      rintro ⟨e, he⟩
      rw [hn] at he
      cases he
    · exact iff_of_true he hfits
  · have hwrite := h.write_of_cycle S hs hn
    refine ⟨fun c hc => Width.readByte_of_write hwrite hc, fun k j l b hk hl hload => ⟨?_, ?_⟩⟩
    · rintro hwidth rfl
      exact hl.load S hload (by rw [hk, hwidth]; exact Width.read_of_write hwrite)
    · intro hword hbyte
      rw [hword] at hwrite
      have hhalf := Memory.readByte_of_writeWord hwrite b
      have hread {half : Byte} (hb : n.memory.readByte b = .ok half) :
          k.Loads S j l (Word.signExtend half) := by
        apply hl.load S hload
        rw [hk, hbyte, Width.read, hb]
        rfl
      constructor
      · rintro rfl
        rw [if_neg (by omega), if_pos rfl] at hhalf
        exact hread hhalf
      · rintro rfl
        rw [if_pos rfl] at hhalf
        exact hread hhalf

/-- A store with a negative offset, a load whose address wraps, and a load of the second byte. -/
def roundabout : Machine Unit :=
  { Machine.new () with
    memory := Memory.zero.place 0 ((Instruction.indexed .swr .t0 .fp (some .t1)).encode ++
      (Instruction.access .lw .t2 (some .fp) 0xFFFF).encode ++
      (Instruction.indexed .lbr .t3 .fp none).encode)
    registers := ((initialRegisters.set .t0 0x81FE).set .t1 0xFFFF).set .fp 101 }

theorem forms_share_cells_roundabout :
    ∃ n, roundabout.cycle silent = (.ok (.indexed .swr .t0 .fp (some .t1)), n) ∧
      n.Loads silent (.access .lw .t2 (some .fp) 0xFFFF)
        ⟨false, .word, .t2, .constant 0xFFFF, some .fp⟩ 0x81FE ∧
      (n.setRegister .pc 6).Loads silent (.indexed .lbr .t3 .fp none)
        ⟨false, .byte, .t3, .register .fp, none⟩ 0xFFFE := by
  have hstore : roundabout.Transfers (.indexed .swr .t0 .fp (some .t1))
      ⟨true, .word, .t0, .register .fp, some .t1⟩ 100 := by
    refine ⟨⟨0x60C1, 0, ⟨?_, ?_⟩, ?_⟩, rfl, ?_⟩ <;> decide +kernel
  have hreply : (roundabout.cycle silent).1 = .ok (.indexed .swr .t0 .fp (some .t1)) := by
    decide +kernel
  have hcycle : roundabout.cycle silent =
      (.ok (.indexed .swr .t0 .fp (some .t1)), (roundabout.cycle silent).2) := by rw [← hreply]
  have hword : (roundabout.cycle silent).2.Transfers (.access .lw .t2 (some .fp) 0xFFFF)
      ⟨false, .word, .t2, .constant 0xFFFF, some .fp⟩ 100 := by
    refine ⟨⟨0x812C, 0xFFFF, ⟨?_, ?_⟩, ?_⟩, rfl, ?_⟩ <;> decide +kernel
  have hbyte : ((roundabout.cycle silent).2.setRegister .pc 6).Transfers
      (.indexed .lbr .t3 .fp none) ⟨false, .byte, .t3, .register .fp, none⟩ 101 := by
    refine ⟨⟨0x53CF, 0, ⟨?_, ?_⟩, ?_⟩, rfl, ?_⟩ <;> decide +kernel
  have hvalue : (roundabout.found (.indexed .swr .t0 .fp (some .t1))).get .t0 = 0x81FE := by
    decide +kernel
  have hlow : Word.signExtend (0x81FE : Word).low = 0xFFFE := by decide
  generalize (roundabout.cycle silent).2 = n at hcycle hword hbyte
  obtain ⟨-, -, hcells⟩ := forms_share_cells silent hstore
  obtain ⟨-, hloads⟩ := hcells n rfl hcycle
  have hfirst := (hloads n _ _ _ rfl hword rfl).1 rfl rfl
  have hsecond := ((hloads (n.setRegister .pc 6) _ _ _ rfl hbyte rfl).2 rfl rfl).2 rfl
  rw [hvalue] at hfirst
  rw [hvalue, hlow] at hsecond
  exact ⟨n, hcycle, hfirst, hsecond⟩

end Machine
end Minicomputer
