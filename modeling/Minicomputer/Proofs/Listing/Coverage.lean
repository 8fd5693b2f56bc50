import Minicomputer.Listing
import Minicomputer.Proofs.Instruction.Spelling
import Minicomputer.Text.Decimal

/-!
# What a listing covers

A listing walks over the code: each row begins where the instruction of the row before it ends, and
the last row is cut where the code ends. So every byte of the code stands in one row and in no other,
whatever the bytes are. The listing of a program shows the same rows with notes in place of the
bytes, and its data behind them in rows of eight.
-/

set_option autoImplicit false

namespace Minicomputer

namespace Listing

/-! ### Characters -/

/-- The characters that the text of a row is made of. -/
def isPlain (c : Char) : Bool := c.isAlphanum || c == '-' || c == ' ' || c == '?'

theorem isPlain_of_isAlphanum {c : Char} (h : c.isAlphanum = true) : isPlain c = true := by
  simp [isPlain, h]

theorem isPlain_of_isHexDigit {c : Char} (h : Token.isHexDigit c = true) : isPlain c = true := by
  refine isPlain_of_isAlphanum ?_
  simp only [Token.isHexDigit, Bool.or_eq_true, Bool.and_eq_true, decide_eq_true_eq, Char.le_def,
    UInt32.le_iff_toNat_le] at h
  simp only [Char.isAlphanum, Char.isAlpha, Char.isUpper, Char.isLower, Bool.or_eq_true,
    Bool.and_eq_true, decide_eq_true_eq, ge_iff_le, UInt32.le_iff_toNat_le] at h ⊢
  obtain (h | h) | h := h
  · exact .inr h
  · exact .inl (.inr ⟨h.1, h.2.trans (by decide)⟩)
  · exact .inl (.inl ⟨h.1, h.2.trans (by decide)⟩)

theorem isPlain_of_mem_marked {width n : Nat} : ∀ c ∈ (Text.marked width n).toList,
    isPlain c = true := by
  intro c hc
  rw [Text.marked, String.toList_append, List.mem_append] at hc
  obtain hc | hc := hc
  · exact (by simp [isPlain] : ∀ c ∈ "0x".toList, isPlain c = true) c hc
  · exact isPlain_of_isHexDigit (Instruction.isHexDigit_of_mem_hex hc)

theorem isPlain_of_mem_number (z : Int) : ∀ c ∈ (toString z).toList, isPlain c = true := by
  have hdigits : ∀ c ∈ Nat.toDigits 10 z.natAbs, isPlain c = true := fun c hc => by
    have hc := Nat.isDigit_of_mem_toDigits (by decide) (by decide) hc
    exact isPlain_of_isAlphanum (by simp [Char.isAlphanum, hc])
  rw [Text.toList_toString_int, Text.decimal]
  split
  · exact List.forall_mem_cons.mpr ⟨by decide, hdigits⟩
  · exact hdigits

theorem isPlain_of_isName {s : List Char} (h : Token.isName s = true) :
    ∀ c ∈ s, isPlain c = true := by
  cases s with
  | nil => exact nofun
  | cons c s =>
    obtain ⟨hc, hs⟩ := Bool.and_eq_true _ _ ▸ h
    refine List.forall_mem_cons.mpr ⟨isPlain_of_isAlphanum ?_, fun d hd => ?_⟩
    · simp [Char.isAlphanum, hc]
    · exact isPlain_of_isAlphanum (List.all_eq_true.mp hs d hd)

theorem isPlain_of_mem_text (i : Instruction) : ∀ c ∈ i.text.toList, isPlain c = true := by
  have hpieces : ∀ w ∈ i.pieces, ∀ c ∈ w.text.toList, isPlain c = true :=
    i.forall_mem_pieces isPlain_of_isName isPlain_of_mem_number fun _ => isPlain_of_mem_marked
  obtain ⟨hmnemonic, hoperands⟩ := List.forall_mem_cons.mp hpieces
  intro c hc
  rw [Instruction.text_eq_spaced, Instruction.pieces, Token.spaced_cons, List.mem_append,
    List.mem_flatMap] at hc
  obtain hc | ⟨w, hw, hc⟩ := hc
  · exact hmnemonic c hc
  · obtain rfl | hc := List.mem_cons.mp hc
    · decide
    · exact hoperands w hw c hc

theorem isPlain_of_mem_textOfWords (w data : Word) :
    ∀ c ∈ (Instruction.textOfWords w data).toList, isPlain c = true := by
  rw [Instruction.textOfWords]
  cases Instruction.decode w data with
  | some i => exact isPlain_of_mem_text i
  | none =>
    intro c hc
    rw [String.toList_append, List.mem_append] at hc
    obtain hc | hc := hc
    · exact (by simp [isPlain] : ∀ c ∈ "??? ".toList, isPlain c = true) c hc
    · exact isPlain_of_mem_marked c hc

theorem isPlain_of_mem_front (bytes : List Byte) :
    ∀ c ∈ (front bytes).1.toList, isPlain c = true := by
  unfold front
  split
  · dsimp only
    split
    · split <;> exact isPlain_of_mem_textOfWords _ _
    · exact isPlain_of_mem_textOfWords _ _
  · simp [isPlain]

/-! ### Columns of digits -/

/-- The bytes of hexadecimal digits in pairs. -/
def digitPairs : List Char → List Byte
  | a :: b :: s => UInt8.ofNat (Text.numeral 16 [a, b]) :: digitPairs s
  | _ => []

/-- The bytes that a printed column of digits denotes. The blanks in it do not count. -/
def columnBytes (column : String) : List Byte := digitPairs (column.toList.filter (· != ' '))

theorem digitValue_digitChar {d : Nat} (h : d < 16) : Text.digitValue (Nat.digitChar d) = d := by
  have hall : ∀ d < 16, Text.digitValue (Nat.digitChar d) = d := by decide
  exact hall d h

theorem digitChar_ne_blank {d : Nat} (h : d < 16) : Nat.digitChar d ≠ ' ' := by
  have hall : ∀ d < 16, Nat.digitChar d ≠ ' ' := by decide
  exact hall d h

/-- A byte has two digits, also where it is small. -/
theorem toList_hex_two (b : Byte) : (Text.hex 2 b.toNat).toList =
    [Nat.digitChar (b.toNat / 16), Nat.digitChar (b.toNat % 16)] := by
  have hb : b.toNat < 256 := b.toNat_lt
  rw [Text.hex, String.toList_ofList, Text.padLeft, Nat.toDigits_eq_if (by decide)]
  by_cases hsmall : b.toNat < 16
  · rw [if_pos hsmall, Nat.div_eq_of_lt hsmall, Nat.mod_eq_of_lt hsmall]
    rfl
  · have hhigh : b.toNat / 16 < 16 := by omega
    rw [if_neg hsmall, Nat.toDigits_eq_if (by decide), if_pos hhigh]
    rfl

theorem digitPairs_hex_two (b : Byte) (s : List Char) :
    digitPairs ((Text.hex 2 b.toNat).toList ++ s) = b :: digitPairs s := by
  have hb : b.toNat < 256 := b.toNat_lt
  have hvalue : Text.numeral 16 [Nat.digitChar (b.toNat / 16), Nat.digitChar (b.toNat % 16)] =
      b.toNat := by
    simp only [Text.numeral, List.foldl_cons, List.foldl_nil]
    rw [digitValue_digitChar (by omega), digitValue_digitChar (by omega)]
    omega
  rw [toList_hex_two, List.cons_append, List.cons_append, List.nil_append, digitPairs, hvalue,
    UInt8.ofNat_toNat]

theorem digitPairs_flatMap_hex (bytes : List Byte) :
    digitPairs (bytes.flatMap fun b => (Text.hex 2 b.toNat).toList) = bytes := by
  induction bytes with
  | nil => rfl
  | cons b bytes ih => rw [List.flatMap_cons, digitPairs_hex_two, ih]

theorem filter_hex_two (b : Byte) :
    (Text.hex 2 b.toNat).toList.filter (· != ' ') = (Text.hex 2 b.toNat).toList := by
  have hb : b.toNat < 256 := b.toNat_lt
  rw [List.filter_eq_self, toList_hex_two]
  simp [digitChar_ne_blank (d := b.toNat / 16) (by omega),
    digitChar_ne_blank (d := b.toNat % 16) (by omega)]

/-- Without its separators a text is its parts one after the other. -/
theorem filter_intercalate (c : Char) (parts : List (List Char)) :
    ([c].intercalate parts).filter (· != c) = parts.flatMap (·.filter (· != c)) := by
  induction parts with
  | nil => rfl
  | cons part parts ih =>
    cases parts with
    | nil => simp
    | cons next parts => simp_all

/-- The column of some bytes denotes these bytes, however far it is filled up. -/
theorem columnBytes_padRight_hexColumn (width : Nat) (bytes : List Byte) :
    columnBytes (Text.padRight width (hexColumn bytes)) = bytes := by
  have hfilling (n : Nat) : (List.replicate n ' ').filter (· != ' ') = [] := by simp
  have hcolumn : (hexColumn bytes).toList.filter (· != ' ') =
      bytes.flatMap fun b => (Text.hex 2 b.toNat).toList := by
    rw [hexColumn, String.toList_intercalate]
    change ([' '].intercalate _).filter _ = _
    rw [filter_intercalate, List.map_map, List.flatMap_map]
    exact congrArg (bytes.flatMap ·) (funext filter_hex_two)
  rw [columnBytes, Text.padRight, String.toList_append, String.toList_ofList, List.filter_append,
    hfilling, List.append_nil, hcolumn, digitPairs_flatMap_hex]

/-! ### Rows of code -/

/-- The row of some code at an address. It is cut where the code ends. -/
def rowAt (code : List Byte) (address : Nat) : Row :=
  ⟨address, (code.drop address).take (textAt code address).2, (textAt code address).1⟩

/-- The rows from an address on, up to the end of the code. -/
inductive Walk (code : List Byte) : Nat → List Row → Prop where
  | done {address : Nat} (h : code.length ≤ address) : Walk code address []
  | row {address : Nat} {rs : List Row} (h : address < code.length)
      (rest : Walk code (address + (textAt code address).2) rs) :
      Walk code address (rowAt code address :: rs)

variable {code : List Byte} {address : Nat} {rs : List Row}

theorem walk_of_eq_drop (bytes : List Byte) (address : Nat) (h : bytes = code.drop address) :
    Walk code address (rows address bytes) := by
  fun_induction rows address bytes with
  | case1 address => exact .done (List.drop_eq_nil_iff.mp h.symm)
  | case2 address b rest text size hfront ih =>
    have hshown : textAt code address = (text, size) := by
      rw [textAt, ← h, hfront]
    have hlt : address < code.length := by
      by_contra hge
      rw [List.drop_eq_nil_of_le (by omega)] at h
      cases h
    have hsize : 0 < size := by
      have hpos := front_size_pos (b :: rest)
      rwa [hfront] at hpos
    -- The instruction may be longer than what is left of the code. Then nothing is left behind it.
    have hrest : rest.drop (size - 1) = code.drop (address + size) := by
      rw [← List.drop_drop, ← h]
      cases size with
      | zero => exact absurd hsize (Nat.lt_irrefl 0)
      | succ n => rfl
    have hrow : (⟨address, (b :: rest).take size, text⟩ : Row) = rowAt code address := by
      rw [rowAt, hshown, h]
    rw [hrow]
    refine .row hlt ?_
    rw [hshown]
    exact ih hrest

theorem walk_rows (code : List Byte) : Walk code 0 (rows 0 code) := walk_of_eq_drop code 0 rfl

theorem Walk.head (h : Walk code address rs) : ∀ r ∈ rs.head?, r.address = address := by
  cases h with
  | done => exact nofun
  | row =>
    rintro r ⟨⟩
    rfl

theorem Walk.isChain (h : Walk code address rs) :
    rs.IsChain fun r s => s.address = r.address + (textAt code r.address).2 := by
  induction h with
  | done => exact .nil
  | row _ rest ih => exact List.isChain_cons.mpr ⟨rest.head, ih⟩

theorem Walk.eq_rowAt (h : Walk code address rs) :
    ∀ r ∈ rs, r.address < code.length ∧ r = rowAt code r.address := by
  induction h with
  | done => exact nofun
  | row hlt _ ih =>
    intro r hr
    obtain rfl | hr := List.mem_cons.mp hr
    · exact ⟨hlt, rfl⟩
    · exact ih r hr

/-- No byte is lost and none is shown twice. -/
theorem Walk.flatMap_bytes (h : Walk code address rs) : rs.flatMap Row.bytes = code.drop address := by
  induction h with
  | done h => exact (List.drop_eq_nil_of_le h).symm
  | row _ _ ih =>
    rw [List.flatMap_cons, ih, ← List.drop_drop]
    exact List.take_append_drop _ _

/-- The rows show some code from its first byte to its last, each with the instruction that stands at
its address, and end where the code does. -/
structure Covers (code : List Byte) (rs : List Row) : Prop where
  first : ∀ r ∈ rs.head?, r.address = 0
  next : rs.IsChain fun r s => s.address = r.address + (textAt code r.address).2
  inside : ∀ r ∈ rs, r.address < code.length
  text : ∀ r ∈ rs, r.text = (textAt code r.address).1
  line : ∀ r ∈ rs, '\n' ∉ r.text.toList
  bytes : ∀ r ∈ rs, r.bytes = (code.drop r.address).take (textAt code r.address).2
  columns : (rs.flatMap fun r => columnBytes (Text.padRight 12 (hexColumn r.bytes))) = code

theorem covers_rows (code : List Byte) : Covers code (rows 0 code) := by
  have hwalk := walk_rows code
  have hrow {r : Row} (hr : r ∈ rows 0 code) : r = rowAt code r.address := (hwalk.eq_rowAt r hr).2
  exact {
    first := hwalk.head
    next := hwalk.isChain
    inside := fun r hr => (hwalk.eq_rowAt r hr).1
    text := fun r hr => congrArg Row.text (hrow hr)
    line := fun r hr => by
      rw [hrow hr]
      exact fun hc => absurd (isPlain_of_mem_front _ _ hc) (by decide)
    bytes := fun r hr => congrArg Row.bytes (hrow hr)
    columns := by
      simp only [columnBytes_padRight_hexColumn]
      exact hwalk.flatMap_bytes }

/-! ### Rows of data -/

/-- The rows of a dump, with the characters of the bytes as their text. -/
def dumpRows (address : Nat) (bytes : List Byte) : List Row :=
  if bytes.isEmpty then []
  else
    ⟨address, bytes.take 8, String.ofList ((bytes.take 8).map dumpChar)⟩ ::
      dumpRows (address + 8) (bytes.drop 8)
termination_by bytes.length
decreasing_by
  rename_i h
  have hpos := List.length_pos_iff.mpr (List.isEmpty_eq_false_iff.mp (Bool.not_eq_true _ ▸ h))
  rw [List.length_drop]
  omega

def dumpLine (r : Row) : String :=
  Text.hex 4 r.address ++ ": " ++ Text.padRight 24 (hexColumn r.bytes) ++ " " ++ r.text ++ "\n"

theorem dump_eq (address : Nat) (bytes : List Byte) :
    dump address bytes = (dumpRows address bytes).map dumpLine := by
  fun_induction dumpRows address bytes with
  | case1 address bytes h => rw [dump, if_pos h, List.map_nil]
  | case2 address bytes h ih =>
    rw [dump, if_neg h, ih, List.map_cons]
    rfl

/-- The rows show some bytes from an address on, no more than eight in each. -/
structure Dumps (start : Nat) (bytes : List Byte) (rs : List Row) : Prop where
  first : ∀ r ∈ rs.head?, r.address = start
  next : rs.IsChain fun r s => s.address = r.address + r.bytes.length
  width : ∀ r ∈ rs, r.bytes ≠ [] ∧ r.bytes.length ≤ 8
  columns : (rs.flatMap fun r => columnBytes (Text.padRight 24 (hexColumn r.bytes))) = bytes

theorem dumpRows_nil (address : Nat) : dumpRows address [] = [] := by
  rw [dumpRows]
  rfl

theorem dumps_dumpRows (start : Nat) (bytes : List Byte) :
    Dumps start bytes (dumpRows start bytes) := by
  fun_induction dumpRows start bytes with
  | case1 start bytes h =>
    obtain rfl := List.isEmpty_iff.mp h
    exact ⟨nofun, .nil, nofun, rfl⟩
  | case2 start bytes h ih =>
    have hne : bytes ≠ [] := fun e => h (List.isEmpty_iff.mpr e)
    refine ⟨?_, List.isChain_cons.mpr ⟨fun s hs => ?_, ih.next⟩, fun r hr => ?_, ?_⟩
    · rintro r ⟨⟩
      rfl
    · -- A row with another one behind it is full.
      have hmore : bytes.drop 8 ≠ [] := by
        intro e
        rw [e, dumpRows_nil] at hs
        cases hs
      have hlength : 8 < bytes.length := Nat.lt_of_not_le (List.drop_eq_nil_iff.not.mp hmore)
      rw [ih.first s hs, List.length_take, Nat.min_eq_left (Nat.le_of_lt hlength)]
    · obtain rfl | hr := List.mem_cons.mp hr
      · refine ⟨?_, List.length_take_le 8 bytes⟩
        simpa using hne
      · exact ih.width r hr
    · rw [List.flatMap_cons, columnBytes_padRight_hexColumn, ih.columns, List.take_append_drop]

/-! ### Whole programs -/

def heading (p : Program) : String :=
  "# " ++ p.sourceName ++ " (" ++ toString p.code.length ++ " code bytes, " ++
    toString p.data.length ++ " data bytes)\n"

/-- The source line that the notes of a program have for an address of its code. -/
def noted? (p : Program) (address : Nat) : Option UInt32 :=
  p.debugInfo.bind fun d => d.assemblyLine? (address % 65536)

/-- What stands behind the text of a row. -/
def remark (line? : Option UInt32) (text : String) : String :=
  match line? with
  | some line =>
    String.ofList (List.replicate (24 - text.length) ' ') ++ " # line " ++ toString line.toNat ++ "\n"
  | none => "\n"

theorem annotated_eq (line? : Option UInt32) (r : Row) :
    annotated line? r = Text.hex 4 r.address ++ ": " ++ r.text ++ remark line? r.text := by
  cases line? with
  | none => rfl
  | some line => simp only [annotated, remark, Text.padRight, String.append_assoc]

/-- Both listings walk over the code from its first byte to its last: each row begins where the
instruction of the row before it ends, and shows the instruction at its address. The listing of code
shows the bytes too, which together are the code. The listing of a program shows its data behind the
code, from the address on at which the code ends, in rows that together are the data. -/
theorem listings_cover (p : Program) :
    Covers p.code (rows 0 p.code) ∧
    Dumps p.code.length p.data (dumpRows p.code.length p.data) ∧
    ofCode p.code = "".intercalate ((rows 0 p.code).map fun r =>
      Text.hex 4 r.address ++ ": " ++ Text.padRight 12 (hexColumn r.bytes) ++ " " ++ r.text ++ "\n") ∧
    ofProgram p = "".intercalate (heading p ::
      ((rows 0 p.code).map fun r =>
        Text.hex 4 r.address ++ ": " ++ r.text ++ remark (noted? p r.address) r.text) ++
      if p.data.isEmpty then [] else ".data\n" ::
        (dumpRows p.code.length p.data).map fun r =>
          Text.hex 4 r.address ++ ": " ++ Text.padRight 24 (hexColumn r.bytes) ++ " " ++ r.text ++
            "\n") := by
  refine ⟨covers_rows p.code, dumps_dumpRows p.code.length p.data, rfl, ?_⟩
  rw [ofProgram]
  simp only [annotated_eq, dump_eq]
  rfl

end Listing
end Minicomputer
