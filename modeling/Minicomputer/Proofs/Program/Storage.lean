import Minicomputer.Program.Text
import Minicomputer.Proofs.Json.RoundTrip

/-!
# Stored programs

A program that is written and read again is the same one, with all that it carries. One whose
encoding has another name is not taken.
-/

set_option autoImplicit false

namespace Minicomputer

open Json (Value)

/-! ### Values -/

namespace Json.Value

variable {α : Type}

theorem whole_record {members : List (String × Value)} (h : ∀ m ∈ members, m.2.Whole) :
    (record members).Whole := by
  refine .object fun m hm => ?_
  obtain ⟨⟨k, v⟩, hkv, rfl⟩ := List.mem_map.mp hm
  exact h (k, v) hkv

theorem whole_map {f : α → Value} (h : ∀ x, (f x).Whole) (xs : List α) :
    (array (xs.map f)).Whole := by
  refine .array fun v hv => ?_
  obtain ⟨x, -, rfl⟩ := List.mem_map.mp hv
  exact h x

/-- A list is read from the values of its items. -/
theorem list?_map {item? : Value → Option α} {f : α → Value} (h : ∀ x, item? (f x) = some x)
    (xs : List α) : (array (xs.map f)).list? item? = some xs := by
  unfold list?
  dsimp only
  induction xs with
  | nil => rfl
  | cons x xs ih => rw [List.map_cons, List.mapM_cons, h, ih]; rfl

theorem byte?_integer (b : Byte) : (integer b.toNat).byte? = some b := by
  have h : (0 : Int) ≤ b.toNat ∧ (b.toNat : Int) ≤ 255 := by
    have := b.toNat_lt
    omega
  unfold byte? integer?
  dsimp only
  rw [if_pos h, Option.map_some, Int.toNat_natCast, UInt8.ofNat_toNat]

theorem uint32?_integer (n : UInt32) : (integer n.toNat).uint32? = some n := by
  have h : (0 : Int) ≤ n.toNat ∧ (n.toNat : Int) ≤ 4294967295 := by
    have := n.toNat_lt
    omega
  unfold uint32? integer?
  dsimp only
  rw [if_pos h, Option.map_some, Int.toNat_natCast, UInt32.ofNat_toNat]

theorem int32?_integer (n : Int32) : (integer n.toInt).int32? = some n := by
  have h : -2147483648 ≤ n.toInt ∧ n.toInt ≤ 2147483647 := by
    have := n.le_toInt
    have := n.toInt_lt
    omega
  unfold int32? integer?
  dsimp only
  rw [if_pos h, Option.map_some, Int32.ofInt_toInt]

/-- The keys of a record all denote text. -/
theorem mapM_keys (members : List (String × Value)) :
    (members.map fun m => (some m.1, m.2)).mapM (fun m => m.1.map (·, m.2)) = some members := by
  induction members with
  | nil => rfl
  | cons m ms ih => rw [List.map_cons, List.mapM_cons, ih]; rfl

/-- The fields of a record that has no others and none twice. -/
theorem fields?_record {names : List String} {members : List (String × Value)}
    (hm : ∀ m ∈ members, m.1 ∈ names) (hn : (members.map Prod.fst).Nodup) :
    (record members).fields? names = some members := by
  have hknown : members.filter (fun m => names.contains m.1) = members :=
    List.filter_eq_self.mpr fun m h => List.elem_eq_true_of_mem (hm m h)
  have hnodup : ((members.filter fun m => names.contains m.1).map Prod.fst).Nodup := by
    rw [hknown]
    exact hn
  refine (congrArg (Option.bind · _) (mapM_keys members)).trans ?_
  rw [Option.bind_some]
  exact (if_pos hnodup).trans (congrArg some hknown)

end Json.Value

/-! ### Parts of programs -/

theorem bind_eq {α β : Type} {x? : Option α} {x : α} {f : α → Option β} {r : Option β}
    (hx : x? = some x) (hr : f x = r) : x?.bind f = r := by
  rw [hx, Option.bind_some, hr]

/-- A field of a structure is looked up and read, and then come the others. -/
theorem field_eq {α β : Type} {fields : List (String × Value)} {name : String} {v : Value}
    {read? : Value → Option α} {x : α} {f : α → Option β} {r : Option β}
    (hv : fields.lookup name = some v) (hx : read? v = some x) (hr : f x = r) :
    ((fields.lookup name).bind fun v => (read? v).bind f) = r :=
  bind_eq hv (bind_eq hx hr)

theorem GlobalVariable.ofJson?_toJson (g : GlobalVariable) : ofJson? g.toJson = some g := by
  unfold ofJson? toJson
  rw [Value.fields?_record (by simp) (by simp), Option.bind_eq_bind, Option.bind_some]
  refine field_eq rfl rfl ?_
  refine field_eq rfl (Value.int32?_integer g.location) ?_
  exact field_eq rfl rfl rfl

theorem LocalVariable.ofJson?_toJson (l : LocalVariable) : ofJson? l.toJson = some l := by
  unfold ofJson? toJson
  rw [Value.fields?_record (by simp) (by simp), Option.bind_eq_bind, Option.bind_some]
  refine field_eq rfl rfl ?_
  refine field_eq rfl (Value.int32?_integer l.offset) ?_
  exact field_eq rfl rfl rfl

theorem DebugInfo.ofJson?_toJson (d : DebugInfo) : ofJson? d.toJson = some d := by
  unfold ofJson? toJson
  rw [Value.fields?_record (by simp) (by simp), Option.bind_eq_bind, Option.bind_some]
  refine field_eq rfl rfl ?_
  refine field_eq rfl rfl ?_
  refine field_eq rfl (Value.list?_map Value.uint32?_integer d.assemblyLines.toList) ?_
  refine field_eq rfl rfl ?_
  refine field_eq rfl (Value.list?_map Value.uint32?_integer d.sourceLines.toList) ?_
  refine field_eq rfl (Value.list?_map GlobalVariable.ofJson?_toJson d.globals) ?_
  refine field_eq rfl (Value.list?_map (Value.list?_map LocalVariable.ofJson?_toJson)
    d.locals.toList) ?_
  exact field_eq rfl (Value.list?_map (f := Value.text) (fun _ => rfl) d.debugStrings) rfl

namespace Program

theorem ofJson?_toJson (p : Program) : ofJson? p.toJson = some p := by
  have hbytes (bs : List Byte) : (numbers (·.toNat) bs).list? Value.byte? = some bs :=
    Value.list?_map Value.byte?_integer bs
  have hgraphics := Value.list?_map hbytes p.graphics
  unfold ofJson? toJson
  rw [Value.fields?_record (by cases p.debugInfo <;> simp) (by cases p.debugInfo <;> simp),
    Option.bind_eq_bind, Option.bind_some]
  refine field_eq rfl rfl ?_
  refine field_eq rfl (hbytes p.code) ?_
  refine field_eq rfl (hbytes p.data) ?_
  refine bind_eq hgraphics ?_
  refine field_eq rfl rfl ?_
  refine bind_eq (x := p.debugInfo) ?_ rfl
  cases p.debugInfo with
  | none => rfl
  | some d => exact congrArg (Option.map some) d.ofJson?_toJson

end Program

/-! ### Texts -/

theorem whole_numbers {α : Type} (f : α → Int) (xs : List α) : (numbers f xs).Whole :=
  Value.whole_map (fun _ => .integer _) xs

theorem GlobalVariable.whole_toJson (g : GlobalVariable) : g.toJson.Whole := by
  refine Value.whole_record fun m hm => ?_
  simp only [List.mem_cons, List.not_mem_nil, or_false] at hm
  obtain rfl | rfl | rfl := hm
  · exact .text _
  · exact .integer _
  · exact .text _

theorem LocalVariable.whole_toJson (l : LocalVariable) : l.toJson.Whole := by
  refine Value.whole_record fun m hm => ?_
  simp only [List.mem_cons, List.not_mem_nil, or_false] at hm
  obtain rfl | rfl | rfl := hm
  · exact .text _
  · exact .integer _
  · exact .text _

theorem DebugInfo.whole_toJson (d : DebugInfo) : d.toJson.Whole := by
  refine Value.whole_record fun m hm => ?_
  simp only [List.mem_cons, List.not_mem_nil, or_false] at hm
  obtain rfl | rfl | rfl | rfl | rfl | rfl | rfl | rfl := hm
  · exact .text _
  · exact .text _
  · exact whole_numbers _ _
  · exact .text _
  · exact whole_numbers _ _
  · exact Value.whole_map GlobalVariable.whole_toJson _
  · exact Value.whole_map (fun ls => Value.whole_map LocalVariable.whole_toJson ls) _
  · exact Value.whole_map .text _

namespace Program

theorem whole_toJson (p : Program) : p.toJson.Whole := by
  refine Value.whole_record fun m hm => ?_
  rw [List.mem_append] at hm
  obtain hm | hm := hm
  · simp only [List.mem_cons, List.not_mem_nil, or_false] at hm
    obtain rfl | rfl | rfl | rfl | rfl := hm
    · exact .text _
    · exact whole_numbers _ _
    · exact whole_numbers _ _
    · exact Value.whole_map (whole_numbers _) _
    · exact .text _
  · cases hd : p.debugInfo with
    | none =>
      rw [hd] at hm
      cases hm
    | some d =>
      rw [hd] at hm
      rw [List.mem_singleton.mp hm]
      exact d.whole_toJson

/-- A program is read from its own text, whatever it holds. Only the name of its encoding can stand
against that. -/
theorem ofText_toText (p : Program) :
    ofText p.toText =
      if p.format = formatName then .ok p else .error (.unsupportedFormat p.format) := by
  unfold ofText toText
  rw [Json.read?_toText p.whole_toJson, Option.bind_some, ofJson?_toJson]

end Program
end Minicomputer
