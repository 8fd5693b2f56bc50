import Minicomputer.Debugger

/-!
# The window on the code

The debugger sweeps through the code as it stands in memory, and shows some rows around the program
counter. However the code has changed and wherever the program counter stands, the rows are a part of
the sweep, and the current row is among them as soon as the sweep comes by the program counter.
-/

set_option autoImplicit false

namespace Minicomputer

namespace Debugger

/-- The rows of a sweep through some bytes up to a limit. Each begins where the instruction of the row
before it ends. -/
inductive Sweeps (bytes : List Byte) (limit : Nat) : Nat → List (Nat × String) → Prop where
  | done {address : Nat} (h : limit ≤ address) : Sweeps bytes limit address []
  | row {address : Nat} {rows : List (Nat × String)} (h : address < limit)
      (rest : Sweeps bytes limit (address + (Listing.textAt bytes address).2) rows) :
      Sweeps bytes limit address ((address, (Listing.textAt bytes address).1) :: rows)

variable {memory : List Byte} {limit address : Nat} {rows : List (Nat × String)}

/-! ### Sweeps -/

theorem sweeps_of_eq_drop (address limit : Nat) (bytes : List Byte)
    (h : bytes = memory.drop address) :
    Sweeps memory limit address (sweep address limit bytes) := by
  fun_induction sweep address limit bytes with
  | case1 address bytes hlt found ih =>
    have hfound : Listing.textAt memory address = found := congrArg Listing.front h.symm
    have hrest : bytes.drop found.2 = memory.drop (address + found.2) := by
      rw [h, List.drop_drop]
    have hrow := Sweeps.row hlt (hfound ▸ ih hrest)
    rwa [hfound] at hrow
  | case2 address bytes hge => exact .done (Nat.le_of_not_lt hge)

theorem Sweeps.unique {others : List (Nat × String)} (h : Sweeps memory limit address rows)
    (ho : Sweeps memory limit address others) : others = rows := by
  induction h generalizing others with
  | done hge =>
    cases ho with
    | done => rfl
    | row hlt => exact absurd hlt (Nat.not_lt_of_le hge)
  | row hlt _ ih =>
    cases ho with
    | done hge => exact absurd hlt (Nat.not_lt_of_le hge)
    | row _ rest => rw [ih rest]

theorem sweeps_iff : Sweeps memory limit 0 rows ↔ rows = sweep 0 limit memory := by
  have hsweep : Sweeps memory limit 0 (sweep 0 limit memory) := sweeps_of_eq_drop 0 limit memory rfl
  constructor
  · exact hsweep.unique
  · rintro rfl
    exact hsweep

theorem Sweeps.bounds (h : Sweeps memory limit address rows) :
    ∀ row ∈ rows, address ≤ row.1 ∧ row.1 < limit := by
  induction h with
  | done => exact nofun
  | row hlt _ ih =>
    intro row hrow
    obtain rfl | hrow := List.mem_cons.mp hrow
    · exact ⟨Nat.le_refl _, hlt⟩
    · obtain ⟨hle, hlt⟩ := ih row hrow
      exact ⟨by omega, hlt⟩

/-- No instruction is empty, so that the addresses grow. -/
theorem Sweeps.increasing (h : Sweeps memory limit address rows) :
    rows.Pairwise fun r s => r.1 < s.1 := by
  induction h with
  | done => exact .nil
  | @row address rows hlt rest ih =>
    refine List.pairwise_cons.mpr ⟨fun row hrow => ?_, ih⟩
    have hsize : 0 < (Listing.textAt memory address).2 := Listing.front_size_pos _
    have hle := (rest.bounds row hrow).1
    dsimp only
    omega

/-! ### Windows -/

/-- A row as the debugger shows it, with whether it is the current one. -/
def marked (pc : Nat) (row : Nat × String) : Nat × String × Bool := (row.1, row.2, row.1 == pc)

/-- The index of the row that the window is laid around. -/
def currentIndex (pc : Nat) (rows : List (Nat × String)) : Nat :=
  (rows.findIdx? fun row => row.1 == pc).getD 0

theorem disassembly_eq (d : Debugger) (lines : Nat)
    (h : Sweeps d.machine.memory.bytes.toList d.program.code.length 0 rows)
    (hcode : d.program.code.length ≤ 65536) :
    d.disassembly lines =
      ((rows.drop (currentIndex d.machine.pc.toNat rows - lines / 2)).take lines).map
        (marked d.machine.pc.toNat) := by
  have hrows := sweeps_iff.mp h
  have hstay : ∀ row ∈ rows, row.1 % 65536 = row.1 := fun row hrow =>
    Nat.mod_eq_of_lt (Nat.lt_of_lt_of_le (h.bounds row hrow).2 hcode)
  subst hrows
  refine List.map_congr_left fun row hrow => ?_
  change (row.1 % 65536, row.2, row.1 == d.machine.pc.toNat) = marked d.machine.pc.toNat row
  rw [hstay row (List.mem_of_mem_drop (List.mem_of_mem_take hrow))]
  rfl

theorem currentIndex_of_absent {pc : Nat} (h : ∀ row ∈ rows, row.1 ≠ pc) :
    currentIndex pc rows = 0 := by
  have hnone : (rows.findIdx? fun row => row.1 == pc) = none := by
    rw [List.findIdx?_eq_none_iff]
    exact fun row hrow => beq_false_of_ne (h row hrow)
  rw [currentIndex, hnone, Option.getD_none]

theorem currentIndex_of_append {pc : Nat} {front rest : List (Nat × String)} {text : String}
    (h : ∀ row ∈ front, row.1 ≠ pc) :
    currentIndex pc (front ++ (pc, text) :: rest) = front.length := by
  have hnone : (front.findIdx? fun row => row.1 == pc) = none := by
    rw [List.findIdx?_eq_none_iff]
    exact fun row hrow => beq_false_of_ne (h row hrow)
  rw [currentIndex, List.findIdx?_append, hnone, List.findIdx?_cons]
  simp

/-- No more than half of the lines stand in front of the current row, so it is within the window. -/
theorem mem_window_of_append {front rest : List (Nat × String)} {row : Nat × String} {lines : Nat}
    (hlines : 1 ≤ lines) :
    row ∈ ((front ++ row :: rest).drop (front.length - lines / 2)).take lines := by
  have hdrop : (front ++ row :: rest).drop (front.length - lines / 2) =
      front.drop (front.length - lines / 2) ++ row :: rest :=
    List.drop_append_of_le_length (Nat.sub_le _ _)
  have hlt : (front.drop (front.length - lines / 2)).length < lines := by
    rw [List.length_drop]
    omega
  rw [hdrop, List.take_append, List.take_of_length_le (Nat.le_of_lt hlt)]
  obtain ⟨n, hn⟩ := Nat.exists_eq_add_of_lt hlt
  have hroom : lines - (front.drop (front.length - lines / 2)).length = n + 1 := by omega
  rw [hroom, List.take_succ_cons]
  exact List.mem_append_right _ List.mem_cons_self

/-- The rows are told apart by their addresses. -/
theorem filter_marked {pc : Nat} {text : String} (h : rows.Pairwise fun r s => r.1 < s.1)
    (hrow : (pc, text) ∈ rows) :
    (rows.map (marked pc)).filter (·.2.2) = [(pc, text, true)] := by
  obtain ⟨front, rest, rfl⟩ := List.append_of_mem hrow
  obtain ⟨-, hrest, hfront⟩ := List.pairwise_append.mp h
  obtain ⟨hrest, -⟩ := List.pairwise_cons.mp hrest
  have hbefore : (front.map (marked pc)).filter (·.2.2) = [] := by
    simp only [List.filter_eq_nil_iff, List.forall_mem_map, marked]
    intro row hrow
    have hlt := hfront row hrow _ List.mem_cons_self
    simpa using Nat.ne_of_lt hlt
  have hafter : (rest.map (marked pc)).filter (·.2.2) = [] := by
    simp only [List.filter_eq_nil_iff, List.forall_mem_map, marked]
    intro row hrow
    simpa using Nat.ne_of_gt (hrest row hrow)
  rw [List.map_append, List.map_cons, List.filter_append, hbefore, List.filter_cons, hafter]
  simp [marked]

/-- The debugger shows a contiguous part of the full sweep through the code, as many lines as were
asked for or all that are left from the first of them on. If the sweep comes by the program counter,
its row is shown and is the only one that is marked; if it does not, the sweep is shown from its
beginning and no row is marked. -/
theorem disassembly_window (d : Debugger) (hloaded : d.program.imageSize ≤ memorySize) {lines : Nat}
    (hlines : 1 ≤ lines) :
    ∃ before window after : List (Nat × String),
      (∀ rows, Sweeps d.machine.memory.bytes.toList d.program.code.length 0 rows ↔
        rows = before ++ window ++ after) ∧
      d.disassembly lines = window.map (marked d.machine.pc.toNat) ∧
      window.length = min lines (window ++ after).length ∧
      ((d.disassembly lines).map (·.1)).Pairwise (· < ·) ∧
      (∀ text, (d.machine.pc.toNat, text) ∈ before ++ window ++ after →
        (d.machine.pc.toNat, text) ∈ window ∧
          (d.disassembly lines).filter (·.2.2) = [(d.machine.pc.toNat, text, true)]) ∧
      ((∀ row ∈ before ++ window ++ after, row.1 ≠ d.machine.pc.toNat) →
        before = [] ∧ ∀ row ∈ d.disassembly lines, row.2.2 = false) := by
  have hcode : d.program.code.length ≤ 65536 := by
    simp only [Program.imageSize, memorySize] at hloaded
    omega
  obtain ⟨rows, hrows⟩ : ∃ rows, Sweeps d.machine.memory.bytes.toList d.program.code.length 0 rows :=
    ⟨_, sweeps_iff.mpr rfl⟩
  have hshown := disassembly_eq d lines hrows hcode
  generalize hpc : d.machine.pc.toNat = pc at hshown ⊢
  generalize hstart : currentIndex pc rows - lines / 2 = start at hshown
  have hcut : rows.take start ++ (rows.drop start).take lines ++ (rows.drop start).drop lines =
      rows := by
    rw [List.append_assoc, List.take_append_drop, List.take_append_drop]
  have hwindow : (rows.drop start).take lines <:+: rows := ⟨_, _, hcut⟩
  have hincreasing := hrows.increasing.sublist hwindow.sublist
  refine ⟨rows.take start, (rows.drop start).take lines, (rows.drop start).drop lines,
    fun others => ?_, hshown, ?_, ?_, fun text hrow => ?_, fun habsent => ?_⟩
  · rw [hcut]
    exact ⟨hrows.unique, fun h => h ▸ hrows⟩
  · rw [List.take_append_drop, List.length_take]
  · rw [hshown, List.map_map]
    exact List.pairwise_map.mpr hincreasing
  · rw [hcut] at hrow
    have hmem : (pc, text) ∈ (rows.drop start).take lines := by
      obtain ⟨front, rest, rfl⟩ := List.append_of_mem hrow
      have hfront : ∀ row ∈ front, row.1 ≠ pc := fun row hin =>
        Nat.ne_of_lt ((List.pairwise_append.mp hrows.increasing).2.2 row hin _ List.mem_cons_self)
      rw [← hstart, currentIndex_of_append hfront]
      exact mem_window_of_append hlines
    refine ⟨hmem, ?_⟩
    rw [hshown]
    exact filter_marked hincreasing hmem
  · rw [hcut] at habsent
    have hzero : start = 0 := by
      rw [← hstart, currentIndex_of_absent habsent, Nat.zero_sub]
    refine ⟨by rw [hzero, List.take_zero], ?_⟩
    rw [hshown]
    intro row hrow
    obtain ⟨row, hin, rfl⟩ := List.mem_map.mp hrow
    exact beq_false_of_ne (habsent row (hwindow.subset hin))

/-- A store that makes two short instructions of the long one behind it, after it was executed. -/
def shortened : Debugger :=
  (new (Monitor.ofSeed 1) (.plain [0x84, 0, 0, 4, 0x8F, 0, 0, 1, 0x0F, 0xFF, 0, 0] [] "store")).step

/-- A window of one line is on the new instruction at the program counter. -/
theorem disassembly_window_shortened :
    shortened.program.imageSize ≤ memorySize ∧ ∃ before window after,
      before ++ window ++ after = [(0, "sw t0 4"), (4, "sys exit"), (6, "sys rint"), (8, "nop"),
        (10, "sys exit")] ∧
      window.length = min 1 (window ++ after).length ∧
      (shortened.disassembly 1).filter (·.2.2) = [(4, "sys exit", true)] := by
  have hloaded : shortened.program.imageSize ≤ memorySize := by decide +kernel
  have hpc : shortened.machine.pc.toNat = 4 := by decide +kernel
  have hsweep : sweep 0 shortened.program.code.length shortened.machine.memory.bytes.toList =
      [(0, "sw t0 4"), (4, "sys exit"), (6, "sys rint"), (8, "nop"), (10, "sys exit")] := by
    decide +kernel
  obtain ⟨before, window, after, hrows, -, hlength, -, hcurrent, -⟩ :=
    disassembly_window shortened hloaded (Nat.le_refl 1)
  have hall := (hrows _).mp (sweeps_iff.mpr rfl)
  rw [hsweep] at hall
  rw [hpc, ← hall] at hcurrent
  exact ⟨hloaded, before, window, after, hall.symm, hlength, (hcurrent "sys exit" (by decide)).2⟩

end Debugger
end Minicomputer
