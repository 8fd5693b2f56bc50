import Minicomputer.Proofs.Assembly.Acceptance

/-!
# What notes say

The notes of a source say which line of another source its code comes from and which variables are
known there. The state that the assembler carries from statement to statement is told here by the
notes above a place alone: the last line, and the variables that have come into scope and whose
names have not been left since.
-/

set_option autoImplicit false

namespace Minicomputer.Assembly

open Reading

/-! ### The grammar of notes -/

/-- The operands of a note, by its name in lower case. -/
inductive Says : String → List Token → Note → Prop where
  | file {t : Token} (ht : t.kind = .string) : Says "file" [t] (.file t.text)
  | line {t : Token} {n : Int} (hn : Denotes 0 2147483647 n t) :
      Says "line" [t] (.line (UInt32.ofNat n.toNat))
  | global {t u v : Token} {n : Int} (ht : t.kind = .string) (hn : Denotes 0 65535 n u)
      (hv : v.kind = .string) : Says "global" [t, u, v] (.global ⟨t.text, Int32.ofInt n, v.text⟩)
  | enter {t u v : Token} {n : Int} (ht : t.kind = .string) (hn : Denotes (-32768) 32767 n u)
      (hv : v.kind = .string) : Says "local" [t, u, v] (.enter ⟨t.text, Int32.ofInt n, v.text⟩)
  | leave {t : Token} (ht : t.kind = .string) : Says "endlocal" [t] (.leave t.text)

theorem says_of_note {word : String} {r : Reading Note} {anchor : Token} {ts : List Token}
    {n : Note} (hr : note? word = some r) (h : all anchor ts r = (n, [])) : Says word ts n := by
  unfold note? at hr
  split at hr
  · cases hr
    simp only [all_eq_iff, reads_bind, reads_pure, reads_string] at h
    obtain ⟨_, _, ⟨t, rfl, ht, rfl⟩, rfl, rfl⟩ := h
    exact .file ht
  · cases hr
    simp only [all_eq_iff, reads_bind, reads_pure, reads_integer] at h
    obtain ⟨k, _, ⟨t, rfl, hn⟩, rfl, rfl⟩ := h
    exact .line hn
  · cases hr
    simp only [all_eq_iff, reads_bind, reads_pure, reads_string, reads_integer] at h
    obtain ⟨_, _, ⟨t, rfl, ht, rfl⟩, k, _, ⟨u, rfl, hn⟩, _, _, ⟨v, rfl, hv, rfl⟩, rfl, rfl⟩ := h
    exact .global ht hn hv
  · cases hr
    simp only [all_eq_iff, reads_bind, reads_pure, reads_string, reads_integer] at h
    obtain ⟨_, _, ⟨t, rfl, ht, rfl⟩, k, _, ⟨u, rfl, hn⟩, _, _, ⟨v, rfl, hv, rfl⟩, rfl, rfl⟩ := h
    exact .enter ht hn hv
  · cases hr
    simp only [all_eq_iff, reads_bind, reads_pure, reads_string] at h
    obtain ⟨_, _, ⟨t, rfl, ht, rfl⟩, rfl, rfl⟩ := h
    exact .leave ht
  · cases hr

/-- The note that an entry is. -/
def Entry.note? : Entry → Option Note
  | .note name operands =>
    match (noteStatement name operands).operation with
    | .note n => some n
    | _ => none
  | _ => none

def notes (es : List Entry) : List Note := es.filterMap Entry.note?

theorem notes_cons (e : Entry) (es : List Entry) :
    notes (e :: es) = (Entry.note? e).toList ++ notes es := by
  unfold notes
  rw [List.filterMap_cons]
  cases Entry.note? e <;> rfl

/-- A note that there is nothing to complain about is one of the grammar. -/
theorem says_of_clean {name : Token} {operands : List Token}
    (h : (noteStatement name operands).diagnostics = []) :
    ∃ n, Entry.note? (.note name operands) = some n ∧ Says name.text.toLower operands n := by
  cases hr : Reading.note? name.text.toLower with
  | none => simp [noteStatement, hr] at h
  | some r =>
    simp only [noteStatement, hr] at h
    refine ⟨(all name operands r).1, ?_, says_of_note hr (Prod.ext rfl h)⟩
    simp [Entry.note?, noteStatement, hr]

/-! ### What holds below some notes -/

def Note.file? : Note → Option String
  | .file name => some name
  | _ => none

def Note.line? : Note → Option UInt32
  | .line n => some n
  | _ => none

def Note.global? : Note → Option GlobalVariable
  | .global g => some g
  | _ => none

/-- The file that was named last. -/
def latestFile (ns : List Note) : String := (ns.filterMap Note.file?).getLast?.getD ""

/-- The line that was named last, or zero. -/
def latestLine (ns : List Note) : UInt32 := (ns.filterMap Note.line?).getLast?.getD 0

/-- The local variables that have come into scope, in their order, but for those whose names have
been left since. -/
def visible : List Note → List LocalVariable
  | [] => []
  | .enter l :: ns => if .leave l.name ∈ ns then visible ns else l :: visible ns
  | _ :: ns => visible ns

theorem visible_concat (ns : List Note) (n : Note) :
    visible (ns ++ [n]) =
      match n with
      | .enter l => visible ns ++ [l]
      | .leave name => (visible ns).filter (·.name != name)
      | _ => visible ns := by
  induction ns with
  | nil => cases n <;> simp [visible]
  | cons m ns ih =>
    cases m with
    | enter l =>
      by_cases hm : Note.leave l.name ∈ ns
      · cases n <;> simp_all [visible]
      · cases n with
        | leave name => by_cases hn : l.name = name <;> simp_all [visible]
        | _ => simp_all [visible]
    | _ => cases n <;> simp_all [visible]

/-- What a scope says of the notes above it. -/
structure Scope.Recounts (s : Scope) (ns : List Note) : Prop where
  sourceFile : s.sourceFile = latestFile ns
  sourceLine : s.sourceLine = latestLine ns
  globals : s.globals = ns.filterMap Note.global?
  visible : s.visible = Assembly.visible ns

theorem Scope.recounts_empty : Scope.Recounts {} [] := ⟨rfl, rfl, rfl, rfl⟩

theorem Scope.Recounts.note {s : Scope} {ns : List Note} (h : s.Recounts ns) (n : Note) :
    (s.note n).Recounts (ns ++ [n]) := by
  obtain ⟨hfile, hline, hglobals, hvisible⟩ := h
  have hconcat := visible_concat ns n
  cases n <;> constructor <;>
    simp_all [Scope.note, latestFile, latestLine, Note.file?, Note.line?, Note.global?]

theorem Scope.Recounts.cover {s : Scope} {ns : List Note} (h : s.Recounts ns) (line size : Nat) :
    (s.cover line size).Recounts ns := ⟨h.sourceFile, h.sourceLine, h.globals, h.visible⟩

end Minicomputer.Assembly
