import Minicomputer.Proofs.Listing.Coverage

/-!
# Source lines in listings

The listing of a program notes behind an instruction which line of the source it comes from. The
note begins with the only hash sign of its row, so it can be told from the instruction. It is looked
up by the address modulo `2 ^ 16`, while the address at the front of the row is shown as a whole. So
up to the first `2 ^ 16` bytes of code the notes are those of the instructions, and behind them they
begin anew.
-/

set_option autoImplicit false

namespace Minicomputer.Listing

/-- What a line of text says from its first hash sign on. -/
def note (line : String) : String := String.ofList (line.toList.dropWhile (· != '#'))

/-- How the line of a source is noted. -/
def lineNote (n : UInt32) : String := "# line " ++ toString n.toNat ++ "\n"

/-- A row as the listing of a program shows it. -/
def rowLine (p : Program) (r : Row) : String := annotated (noted? p r.address) r

/-- The data as the listing of a program shows it, behind the code. -/
def dataLines (p : Program) : List String :=
  if p.data.isEmpty then [] else ".data\n" :: dump p.code.length p.data

/-- A line of text notes the line of the source that belongs to an address, if there is one, and
notes nothing if there is none. -/
def Points (d : DebugInfo) (address : Nat) (line : String) : Prop :=
  (∀ n, note line = lineNote n ↔ d.assemblyLine? address = some n) ∧
    (note line = "" ↔ d.assemblyLine? address = none)

/-! ### Notes -/

theorem lineNote_injective : Function.Injective lineNote := by
  intro m n h
  simpa [lineNote, UInt32.toNat_inj] using h

theorem lineNote_ne_empty (n : UInt32) : lineNote n ≠ "" := by
  simp [lineNote]

/-- Nothing in front of the note looks like one. -/
theorem note_append {s t : String} (h : ∀ c ∈ s.toList, c ≠ '#') : note (s ++ t) = note t := by
  unfold note
  rw [String.toList_append, List.dropWhile_append_of_pos]
  intro c hc
  exact bne_iff_ne.mpr (h c hc)

theorem note_lineNote (n : UInt32) : note (lineNote n) = lineNote n := by
  have hhash : (lineNote n).toList = '#' :: (" line " ++ toString n.toNat ++ "\n").toList := by
    simp [lineNote]
  unfold note
  rw [hhash, List.dropWhile_cons_of_neg (by decide), ← hhash, String.ofList_toList]

theorem ne_hash_of_isPlain {c : Char} (h : isPlain c = true) : c ≠ '#' := by
  rintro rfl
  exact absurd h (by decide)

/-- The note of a row is the one that was looked up. -/
theorem note_annotated (line? : Option UInt32) {r : Row}
    (hr : ∀ c ∈ r.text.toList, isPlain c = true) :
    note (annotated line? r) = (line?.map lineNote).getD "" := by
  have haddress : ∀ c ∈ (Text.hex 4 r.address ++ ": ").toList, c ≠ '#' := by
    intro c hc
    rw [String.toList_append, List.mem_append] at hc
    obtain hc | hc := hc
    · exact ne_hash_of_isPlain (isPlain_of_isHexDigit (Instruction.isHexDigit_of_mem_hex hc))
    · rintro rfl
      simp at hc
  have htext : ∀ c ∈ r.text.toList, c ≠ '#' := fun c hc => ne_hash_of_isPlain (hr c hc)
  rw [annotated_eq, String.append_assoc, note_append haddress, note_append htext]
  cases line? with
  | none => simp [note, remark]
  | some n =>
    have hblanks : ∀ c ∈ (String.ofList (List.replicate (24 - r.text.length) ' ') ++ " ").toList,
        c ≠ '#' := by
      intro c hc
      rw [String.toList_append, String.toList_ofList, List.mem_append] at hc
      obtain hc | hc := hc
      · obtain rfl := (List.mem_replicate.mp hc).2
        decide
      · rintro rfl
        simp at hc
    have hsplit : remark (some n) r.text =
        (String.ofList (List.replicate (24 - r.text.length) ' ') ++ " ") ++ lineNote n := by
      simp [remark, lineNote, ← String.toList_inj]
    rw [hsplit, note_append hblanks, note_lineNote]
    rfl

/-- The note tells what was looked up. -/
theorem points_iff {d : DebugInfo} {address : Nat} {line : String} {line? : Option UInt32}
    (h : note line = (line?.map lineNote).getD "") :
    Points d address line ↔ line? = d.assemblyLine? address := by
  unfold Points
  rw [h]
  cases line? with
  | none =>
    refine ⟨fun hp => (hp.2.mp rfl).symm, fun hp => ?_⟩
    rw [← hp]
    exact ⟨fun n => ⟨fun e => absurd e.symm (lineNote_ne_empty n), nofun⟩, iff_of_true rfl rfl⟩
  | some m =>
    refine ⟨fun hp => ((hp.1 m).mp rfl).symm, fun hp => ?_⟩
    rw [← hp]
    refine ⟨fun n => ⟨fun e => ?_, fun e => ?_⟩, iff_of_false (lineNote_ne_empty m) nofun⟩
    · rw [lineNote_injective e]
    · rw [Option.some.inj e]
      rfl

/-! ### Long code -/

/-- The same instruction over and over makes the same row over and over. -/
theorem rows_replicate (block : List Byte) (text : String) (hne : block ≠ [])
    (h : ∀ rest, front (block ++ rest) = (text, block.length)) (n address : Nat) :
    rows address (List.replicate n block).flatten =
      (List.range n).map fun i => ⟨address + i * block.length, block, text⟩ := by
  obtain ⟨b, block, rfl⟩ := List.exists_cons_of_ne_nil hne
  induction n generalizing address with
  | zero => simp [rows]
  | succ n ih =>
    have hf := h (List.replicate n (b :: block)).flatten
    have hstep (i : Nat) : address + (b :: block).length + i * (b :: block).length =
        address + (i + 1) * (b :: block).length := by
      rw [Nat.succ_mul]
      omega
    rw [List.cons_append] at hf
    rw [List.replicate_succ, List.flatten_cons, List.cons_append, rows, hf, List.range_succ_eq_map,
      List.map_cons, List.map_map]
    dsimp only
    rw [List.length_cons, Nat.add_sub_cancel, List.drop_left, ← List.length_cons,
      ← List.cons_append, List.take_left, ih, Nat.zero_mul, Nat.add_zero]
    refine congrArg _ (List.map_congr_left fun i _ => ?_)
    rw [hstep]
    rfl

/-! ### Whole programs -/

/-- Each row of a listing notes the line that belongs to the remainder of its address modulo
`2 ^ 16`, or nothing if none does. That is the line that belongs to the address where the two are
the same, as they are in all code of up to `2 ^ 16` bytes. -/
theorem annotations_wrap (p : Program) (d : DebugInfo) (h : p.debugInfo = some d) :
    ofProgram p = "".intercalate (heading p :: (rows 0 p.code).map (rowLine p) ++ dataLines p) ∧
    (∀ r ∈ rows 0 p.code, Points d (r.address % 65536) (rowLine p r)) ∧
    (∀ r ∈ rows 0 p.code, Points d r.address (rowLine p r) ↔
      d.assemblyLine? (r.address % 65536) = d.assemblyLine? r.address) ∧
    (p.code.length ≤ 65536 → ∀ r ∈ rows 0 p.code, Points d r.address (rowLine p r)) := by
  have hcovers := covers_rows p.code
  have hpoints {r : Row} (hr : r ∈ rows 0 p.code) (address : Nat) :
      Points d address (rowLine p r) ↔
        d.assemblyLine? (r.address % 65536) = d.assemblyLine? address := by
    have hplain : ∀ c ∈ r.text.toList, isPlain c = true := by
      rw [hcovers.text r hr]
      exact isPlain_of_mem_front _
    have hnoted : noted? p r.address = d.assemblyLine? (r.address % 65536) := by
      rw [noted?, h]
      rfl
    rw [← hnoted]
    exact points_iff (note_annotated _ hplain)
  refine ⟨rfl, fun r hr => (hpoints hr _).mpr rfl, fun r hr => hpoints hr _, fun hlen r hr => ?_⟩
  have hlt := hcovers.inside r hr
  rw [hpoints hr, Nat.mod_eq_of_lt (Nat.lt_of_lt_of_le hlt hlen)]

/-- One instruction, over and over, of which only the first has a line. -/
def longCode : Program :=
  { Program.plain (List.replicate 16385 [0x8F, 0x00, 0x00, 0x00]).flatten [] "long" with
    debugInfo := some
      { assemblyFile := "long.asm", assemblySource := "", assemblyLines := #[7], sourceFile := ""
        sourceLines := #[], globals := [], locals := #[], debugStrings := [] } }

/-- Behind `2 ^ 16` bytes of code the first line is noted again. -/
theorem annotations_wrap_longCode :
    ∃ r ∈ rows 0 longCode.code, r.address = 65536 ∧ note (rowLine longCode r) = lineNote 7 ∧
      ¬ ∃ d, longCode.debugInfo = some d ∧ Points d r.address (rowLine longCode r) := by
  have hrows := rows_replicate [0x8F, 0x00, 0x00, 0x00] "li t0 0" nofun (fun _ => rfl) 16385 0
  have hr : (⟨65536, [0x8F, 0x00, 0x00, 0x00], "li t0 0"⟩ : Row) ∈ rows 0 longCode.code := by
    change _ ∈ rows 0 (List.replicate 16385 [0x8F, 0x00, 0x00, 0x00]).flatten
    rw [hrows]
    exact List.mem_map.mpr ⟨16384, List.mem_range.mpr (by decide), rfl⟩
  obtain ⟨-, hnote, hright, -⟩ := annotations_wrap longCode _ rfl
  refine ⟨_, hr, rfl, ((hnote _ hr).1 7).mpr rfl, ?_⟩
  rintro ⟨d, hd, hp⟩
  cases hd
  exact absurd ((hright _ hr).mp hp) (by decide)

end Minicomputer.Listing
