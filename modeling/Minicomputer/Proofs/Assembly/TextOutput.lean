import Minicomputer.Proofs.Assembly.ImageSize
import Minicomputer.Proofs.Assembly.Reassembly
import Minicomputer.Proofs.Token.Literals

/-!
# Programs that print a text

The text is a string literal of the data segment. Whatever characters it has, the tokens around the
literal are the same, and with them the code; the data is the text.
-/

set_option autoImplicit false

namespace Minicomputer.Assembly

open Token

/-- The source of a program that prints a text and ends. -/
def printing (s : String) : String :=
  "\n".intercalate [".data", "m: \"" ++ String.ofList (escaped s.toList) ++ "\"", ".text",
    "la a0 m", "sys wstr", "sys exit"]

/-! ### Tokens -/

/-- The lines behind the literal. -/
def printingCode : String := ".text\nla a0 m\nsys wstr\nsys exit"

theorem toList_printing (s : String) : (printing s).toList =
    ['.', 'd', 'a', 't', 'a'] ++ ([] ++ '\n' ::
      ('m' :: ':' :: ' ' :: '"' :: (escaped s.toList ++ ['"']) ++ ([] ++ '\n' ::
        printingCode.toList))) := by
  simp [printing, printingCode]

/-- The tokens of the lines behind the literal, as of a source of their own. -/
def printingTokens : List (List Token) := [
  [⟨.dot, ".", ⟨0, 1, 0⟩, 1⟩, ⟨.identifier, "text", ⟨1, 1, 1⟩, 5⟩],
  [⟨.identifier, "la", ⟨6, 2, 0⟩, 8⟩, ⟨.identifier, "a0", ⟨9, 2, 3⟩, 11⟩,
    ⟨.identifier, "m", ⟨12, 2, 6⟩, 13⟩],
  [⟨.identifier, "sys", ⟨14, 3, 0⟩, 17⟩, ⟨.identifier, "wstr", ⟨18, 3, 4⟩, 22⟩],
  [⟨.identifier, "sys", ⟨23, 4, 0⟩, 26⟩, ⟨.identifier, "exit", ⟨27, 4, 4⟩, 31⟩]]

theorem scan_printingCode :
    scanFrom ['#'] {} printingCode.toList =
      printingTokens.flatten ++ [⟨.eof, "", ⟨31, 4, 8⟩, 31⟩] := by
  decide_cbv

theorem lexeme_label (s : List Char) :
    lexeme ['#'] 'm' (':' :: s) = ⟨some (.label, "m"), 1⟩ := by
  rw [lexeme_of_ne_mark (by decide)]
  simp [word, span, startsWord, continuesWord, Char.isAlphanum]

theorem scan_literalLine (s : List Char) : ∃ stop,
    scanFrom ['#'] {} ('m' :: ':' :: ' ' :: '"' :: (escaped s ++ ['"'])) =
      [⟨.label, "m", ⟨0, 1, 0⟩, 2⟩, ⟨.string, String.ofList s, ⟨3, 1, 3⟩, stop.offset⟩,
        ⟨.eof, "", stop, stop.offset⟩] := by
  refine ⟨Position.after ⟨3, 1, 3⟩ ('"' :: (escaped s ++ ['"'])), ?_⟩
  rw [scanFrom, if_neg (by decide)]
  simp only [lexeme_label, List.take_succ_cons, List.take_zero, List.drop_succ_cons, List.drop_zero]
  rw [scanFrom_blank (by decide), scanFrom_escaped, scanFrom_nil]
  rfl

/-- The tokens of the lines as far as the literal, which ends somewhere. -/
def literalTokens (s : String) (stop : Nat) : List (List Token) := [
  [⟨.dot, ".", ⟨0, 1, 0⟩, 1⟩, ⟨.identifier, "data", ⟨1, 1, 1⟩, 5⟩],
  [⟨.label, "m", ⟨6, 2, 0⟩, 8⟩, ⟨.string, s, ⟨9, 2, 3⟩, stop⟩]]

theorem scan_printing (s : String) : ∃ stop offset breaks last,
    scan (printing s) defaultLeader =
      (literalTokens s stop).flatten ++ (printingTokens.flatten.map (shift offset (breaks + 2)) ++
        [⟨.eof, "", last, last.offset⟩]) := by
  have hd : defaultLeader.toList = ['#'] := by decide_cbv
  have hdata : scanFrom ['#'] {} ['.', 'd', 'a', 't', 'a'] =
      [⟨.dot, ".", ⟨0, 1, 0⟩, 1⟩, ⟨.identifier, "data", ⟨1, 1, 1⟩, 5⟩,
        ⟨.eof, "", ⟨5, 1, 5⟩, 5⟩] := by
    decide_cbv
  obtain ⟨stop, hliteral⟩ := scan_literalLine s.toList
  rw [scan, hd, toList_printing, scanFrom_append_newline .nil (by rw [hdata]; decide), hdata,
    scanFrom_append_newline .nil (by rw [hliteral]; simp), hliteral, scan_printingCode]
  generalize ('m' :: ':' :: ' ' :: '"' :: (escaped s.toList ++ ['"']) ++ []).length = length
  generalize List.count '\n' ('m' :: ':' :: ' ' :: '"' :: (escaped s.toList ++ ['"'])) = breaks
  refine ⟨stop.offset + 6, length + 1 + 6, breaks,
    ⟨31 + (length + 1) + 6, 4 + (breaks + 1) + 1, 8⟩, ?_⟩
  rw [String.ofList_toList]
  rfl

/-- Tokens are put together by the lines that they start on. -/
theorem lines_flatten {tss : List (List Token)} {last : Token} (hne : [] ∉ tss)
    (hkind : ∀ t ∈ tss.flatten, t.kind ≠ .eof) (hlast : last.kind = .eof)
    (hsame : ∀ ts ∈ tss, ts.IsChain fun t u => t.line == u.line)
    (hbreak : tss.IsChain fun ts us =>
      ∃ ht hu, ((ts.getLast ht).line == (us.head hu).line) = false) :
    lines (tss.flatten ++ [last]) = tss := by
  have hmark : [last].filter (·.kind != .eof) = [] := by simp [hlast]
  rw [lines, List.filter_append, List.filter_eq_self.mpr fun t ht => bne_iff_ne.mpr (hkind t ht),
    hmark, List.append_nil]
  exact List.splitBy_flatten hne hsame hbreak

theorem lines_printing (s : String) : ∃ stop offset breaks,
    lines (scan (printing s) defaultLeader) =
      literalTokens s stop ++ printingTokens.map (·.map (shift offset (breaks + 2))) := by
  obtain ⟨stop, offset, breaks, last, hscan⟩ := scan_printing s
  refine ⟨stop, offset, breaks, ?_⟩
  rw [hscan, List.map_flatten, ← List.append_assoc, ← List.flatten_append]
  refine lines_flatten ?_ ?_ rfl ?_ ?_
  · simp [literalTokens, printingTokens]
  · simp [literalTokens, printingTokens, shift]
  · simp [literalTokens, printingTokens, Token.line, shift, Position.shift]
  · simp [literalTokens, printingTokens, Token.line, shift, Position.shift]
    omega

/-! ### The draft -/

theorem directive?_map_shift (mark : TokenKind) (offset breaks : Nat) (ts : List Token) :
    directive? mark (ts.map (shift offset breaks)) = directive? mark ts := by
  match ts with
  | [] => rfl
  | [t] => rfl
  | t :: u :: ts => simp [directive?, shift, adjacent, Position.shift]

theorem segment?_map_shift (offset breaks : Nat) (ts : List Token) :
    segment? (ts.map (shift offset breaks)) = segment? ts := by
  rw [segment?, directive?_map_shift]
  rfl

theorem addLine_of_segment {images : String → Except FileError (List Byte)} {d : Draft}
    {segment : Segment} {mark name : Token} (h : segment? [mark, name] = some segment) :
    Draft.addLine images d [mark, name] = { d with segment } := by
  cases d
  simp only [Draft.addLine, h]
  simp

/-- A label and a text in the data segment, which is empty so far. -/
theorem addLine_of_text (images : String → Except FileError (List Byte)) {label value : Token}
    (hl : label.kind = .label) (hv : value.kind = .string)
    (hascii : value.text.toList.all (fun c => c.toNat < 128) = true)
    (hfree : label.text ≠ LabelTable.frameBufferName) :
    Draft.addLine images { segment := .data } [label, value] =
      { segment := .data, data := #[⟨value, .string value.text, []⟩],
        labels := ⟨[(label.text, .data 0), (LabelTable.frameBufferName, .address 0x0C00)]⟩ } := by
  have hdot : segment? [label, value] = none := segment?_of_ne (by simp [hl]) [value]
  have hat : directive? .at [value] = none := directive?_of_ne (by simp [hv]) []
  have hbind : Draft.bind .builtIn (.data 0) [label] =
      (⟨[(label.text, .data 0), (LabelTable.frameBufferName, .address 0x0C00)]⟩, []) := by
    have hf : LabelTable.builtIn.contains label.text = false := by
      simp [LabelTable.contains, LabelTable.target?, LabelTable.builtIn, List.lookup_cons,
        beq_false_of_ne hfree]
    rw [Draft.bind, LabelTable.define?, if_neg (by rw [hf]; decide)]
    rfl
  simp [Draft.addLine, hdot, hl, hv, hat, Draft.addDatum, hbind, Draft.value, Reading.all, hascii]
  rfl

theorem stands_load {d : Nat} {first register label : Token} (hf : first.kind = .identifier)
    (hw : first.text = "la") (hr : register.kind = .identifier) (ht : register.text = "a0")
    (hl : label.kind = .identifier) :
    Stands d first [register, label] (.access .li .a0 none (.label label)) := by
  have hword : Mnemonic.ofWord? "la" = some (.access .li false, none) := by decide_cbv
  have hname : Register.ofName? "a0" = some .a0 := by decide_cbv
  have hnames : Reading.Names (Register.isAccessible AccessOp.li.isStore) .a0 register := by
    refine ⟨?_, by decide⟩
    rw [Reading.namedRegister?, if_pos hr, ht, hname]
  have haddress : AccessAddress .li (.label label) label := by
    rw [AccessAddress, if_pos rfl]
    exact .inr ⟨hl, rfl⟩
  exact ⟨hf, _, _, by rw [hw, hword], .access hnames haddress⟩

theorem stands_call {d : Nat} {first name : Token} {call : SystemCall}
    (hf : first.kind = .identifier) (hw : first.text = "sys") (hn : name.kind = .identifier)
    (hc : SystemCall.ofName? name.text = some call) :
    Stands d first [name] (.fixed (.sys call.selector)) := by
  have hword : Mnemonic.ofWord? "sys" = some (.sys, none) := by decide_cbv
  exact ⟨hf, _, _, by rw [hw, hword], .sys ⟨hn, hc⟩⟩

/-- The draft of a program that prints a text, but for where its tokens stand. -/
def printingDraft (s : String) (load label print exit value : Token) : Draft where
  segment := .text
  statements := #[⟨load, .access .li .a0 none (.label label), []⟩,
    ⟨print, .fixed (.sys SystemCall.wstr.selector), []⟩,
    ⟨exit, .fixed (.sys SystemCall.exit.selector), []⟩]
  data := #[⟨value, .string s, []⟩]
  labels := ⟨[("m", .data 0), (LabelTable.frameBufferName, .address 0x0C00)]⟩

theorem draft_printing {settings : Settings} (hleader : settings.commentLeader = defaultLeader)
    {s : String} (hascii : s.toList.all (fun c => c.toNat < 128) = true) :
    ∃ load label print exit value, label.text = "m" ∧
      draft settings (printing s) = printingDraft s load label print exit value := by
  obtain ⟨stop, offset, breaks, hlines⟩ := lines_printing s
  rw [draft, Draft.ofTokens, hleader, hlines]
  let move := shift offset (breaks + 2)
  have hdata : segment? [⟨.dot, ".", ⟨0, 1, 0⟩, 1⟩, ⟨.identifier, "data", ⟨1, 1, 1⟩, 5⟩] =
      some .data := by decide_cbv
  have htext : segment? ([⟨.dot, ".", ⟨0, 1, 0⟩, 1⟩, ⟨.identifier, "text", ⟨1, 1, 1⟩, 5⟩].map move) =
      some .text := by
    rw [segment?_map_shift]
    decide_cbv
  have hload (d : Nat) : Stands d (move ⟨.identifier, "la", ⟨6, 2, 0⟩, 8⟩)
      [move ⟨.identifier, "a0", ⟨9, 2, 3⟩, 11⟩, move ⟨.identifier, "m", ⟨12, 2, 6⟩, 13⟩] _ :=
    stands_load rfl rfl rfl rfl rfl
  have hprint (d : Nat) : Stands d (move ⟨.identifier, "sys", ⟨14, 3, 0⟩, 17⟩)
      [move ⟨.identifier, "wstr", ⟨18, 3, 4⟩, 22⟩] _ :=
    stands_call rfl rfl rfl (show SystemCall.ofName? "wstr" = some .wstr by decide_cbv)
  have hexit (d : Nat) : Stands d (move ⟨.identifier, "sys", ⟨23, 4, 0⟩, 26⟩)
      [move ⟨.identifier, "exit", ⟨27, 4, 4⟩, 31⟩] _ :=
    stands_call rfl rfl rfl (show SystemCall.ofName? "exit" = some .exit by decide_cbv)
  refine ⟨move ⟨.identifier, "la", ⟨6, 2, 0⟩, 8⟩, move ⟨.identifier, "m", ⟨12, 2, 6⟩, 13⟩,
    move ⟨.identifier, "sys", ⟨14, 3, 0⟩, 17⟩, move ⟨.identifier, "sys", ⟨23, 4, 0⟩, 26⟩,
    ⟨.string, s, ⟨9, 2, 3⟩, stop⟩, rfl, ?_⟩
  rw [literalTokens, printingTokens]
  simp only [List.cons_append, List.nil_append, List.map_cons, List.map_nil, List.foldl_cons,
    List.foldl_nil]
  rw [addLine_of_segment hdata, addLine_of_text settings.images rfl rfl hascii (by decide_cbv),
    addLine_of_segment htext, addLine_of_stands rfl rfl (hload _) (by simp),
    addLine_of_stands rfl rfl (hprint _) (by simp), addLine_of_stands rfl rfl (hexit _) (by simp)]
  rfl

/-! ### The program -/

/-- A text of ASCII characters takes a byte for each. -/
theorem bytesOfText_of_ascii {s : String} (h : ∀ c ∈ s.toList, c.toNat < 128) :
    bytesOfText s = s.toList.map fun c => UInt8.ofNat c.toNat := by
  have hc (c : Char) (h : c.toNat < 128) : String.utf8EncodeChar c = [UInt8.ofNat c.toNat] :=
    if_pos (Nat.le_of_lt_succ h)
  rw [bytesOfText]
  generalize s.toList = cs at h
  induction cs with
  | nil => rfl
  | cons c cs ih =>
    rw [List.flatMap_cons, List.map_cons, hc c (h c List.mem_cons_self),
      ih fun d hd => h d (List.mem_cons_of_mem _ hd)]
    rfl

variable {s : String} {load label print exit value : Token}

theorem addresses_printingDraft :
    (printingDraft s load label print exit value).addresses =
      [("m", 8), (LabelTable.frameBufferName, 0x0C00)] := rfl

theorem code_printingDraft (hm : label.text = "m") :
    (printingDraft s load label print exit value).code = [0x8F, 0x60, 0, 8, 0, 6, 0, 0] := by
  have hresolve : AddressOperand.resolve? [("m", 8), (LabelTable.frameBufferName, 0x0C00)]
      (.label label) = some 8 := by
    rw [AddressOperand.resolve?, hm]
    decide
  rw [Draft.code, addresses_printingDraft]
  simp [printingDraft, Operation.encode, Operation.instruction?, hresolve]
  decide

theorem diagnostics_printingDraft (hm : label.text = "m") (hs : (bytesOfText s).length ≤ 4087) :
    (printingDraft s load label print exit value).diagnostics = [] := by
  have hlabel : Resolved [("m", 8), (LabelTable.frameBufferName, 0x0C00)]
      (.access .li .a0 none (.label label)) := by
    rintro t bounded h
    cases h
    exact ⟨8, by rw [hm]; decide, by decide⟩
  have hcall (c : Byte) : Resolved [("m", 8), (LabelTable.frameBufferName, 0x0C00)]
      (.fixed (.sys c)) := nofun
  refine diagnostics_eq_nil_iff.mpr ⟨?_, ?_, rfl, ?_⟩
  · rw [addresses_printingDraft]
    simp [printingDraft, hlabel, hcall]
  · simp [printingDraft]
  · change 8 + (((bytesOfText s).length + 1) % 65536 + 0) ≤ 4096
    omega

/-- The literal is the data, and the code has the address that is behind it. -/
theorem program_printing {settings : Settings} (hleader : settings.commentLeader = defaultLeader)
    (hs : ∀ c ∈ s.toList, c.toNat < 128) (hlength : s.length ≤ 4087) :
    (assemble settings (printing s)).diagnostics = [] ∧
      ∃ p, (assemble settings (printing s)).program = some p ∧
        p.code = [0x8F, 0x60, 0, 8, 0, 6, 0, 0] ∧
          p.data = (s.toList.map fun c => UInt8.ofNat c.toNat) ++ [0] := by
  have hascii : s.toList.all (fun c => c.toNat < 128) = true := by simpa using hs
  have hbytes := bytesOfText_of_ascii hs
  obtain ⟨load, label, print, exit, value, hm, hdraft⟩ := draft_printing hleader hascii
  have hclean : (assemble settings (printing s)).diagnostics = [] := by
    change (draft settings (printing s)).diagnostics = []
    rw [hdraft]
    refine diagnostics_printingDraft hm ?_
    rw [hbytes, List.length_map, String.length_toList]
    exact hlength
  obtain ⟨p, hp⟩ := Option.isSome_iff_exists.mp ((program_isSome_iff settings _).mpr hclean)
  refine ⟨hclean, p, hp, ?_⟩
  rw [eq_program_of_some hp, hdraft]
  refine ⟨code_printingDraft hm, ?_⟩
  change bytesOfText s ++ [0] ++ [] = _
  rw [hbytes, List.append_nil]

end Minicomputer.Assembly
