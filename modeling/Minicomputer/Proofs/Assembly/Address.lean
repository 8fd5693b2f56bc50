import Minicomputer.Proofs.Assembly.Code

/-!
# The addresses of labels

Labels are bound to the number that the next element will have in its segment, long before it is
known where that element lies. In a program that fits in memory the sizes of the elements are the
lengths of their bytes, so that each label gets the address at which the bytes of its element start.
-/

set_option autoImplicit false

namespace Minicomputer.Assembly

theorem lookup_addresses (table : LabelTable) (locate : LabelTarget → Int) (name : String) :
    (table.addresses locate).lookup name = (table.target? name).map fun
      | .address a => (a.toNat : Int)
      | other => locate other := by
  unfold LabelTable.addresses LabelTable.target?
  induction table.entries with
  | nil => rfl
  | cons entry entries ih =>
    obtain ⟨other, target⟩ := entry
    by_cases hn : name = other
    · subst hn
      cases target <;> simp
    · have hb : (name == other) = false := beq_false_of_ne hn
      cases target <;> simp only [List.map_cons, List.lookup_cons, hb, ih]

/-! ### Binding -/

def named (name : String) (ts : List Token) : List Token := ts.filter (·.text = name)

theorem named_append (name : String) (ts us : List Token) :
    named name (ts ++ us) = named name ts ++ named name us :=
  List.filter_append ..

theorem named_ne_nil {ts : List Token} {t : Token} (h : t ∈ ts) : named t.text ts ≠ [] :=
  List.ne_nil_of_mem (List.mem_filter.mpr ⟨h, decide_eq_true rfl⟩)

theorem target?_of_define? {table u : LabelTable} {name : String} {target : LabelTarget}
    (h : table.define? name target = some u) : table.target? name = none := by
  by_contra hc
  have hbound := (LabelTable.define?_eq_none_iff table name target).mpr
    (Option.isSome_iff_ne_none.mpr hc)
  rw [h] at hbound
  cases hbound

/-- The first binding of a name stands. -/
theorem target?_bind (table : LabelTable) (target : LabelTarget) (ts : List Token) (name : String) :
    (Draft.bind table target ts).1.target? name =
      (table.target? name).or (if named name ts = [] then none else some target) := by
  induction ts generalizing table with
  | nil => simp [Draft.bind, named]
  | cons t ts ih =>
    rw [Draft.bind]
    cases hd : table.define? t.text target with
    | some u =>
      dsimp only
      rw [ih, LabelTable.target?_define? hd]
      by_cases hn : t.text = name
      · have hnone : table.target? name = none := hn ▸ target?_of_define? hd
        simp [named, hn, hnone]
      · simp [named, hn, Ne.symm hn]
    | none =>
      have hbound := (LabelTable.define?_eq_none_iff table t.text target).mp hd
      dsimp only
      rw [ih]
      by_cases hn : t.text = name
      · obtain ⟨x, hx⟩ := Option.isSome_iff_exists.mp (hn ▸ hbound : table.contains name = true)
        rw [hx]
        rfl
      · simp [named, hn]

/-- Without a complaint none of the labels had been bound before. -/
theorem free_of_clean {table u : LabelTable} {target : LabelTarget} {ts : List Token}
    (h : Draft.bind table target ts = (u, [])) : ∀ t ∈ ts, table.target? t.text = none := by
  induction ts generalizing table with
  | nil => exact nofun
  | cons t ts ih =>
    unfold Draft.bind at h
    cases hd : table.define? t.text target with
    | none => simp [hd] at h
    | some next =>
      simp only [hd] at h
      refine List.forall_mem_cons.mpr ⟨target?_of_define? hd, fun s hs => ?_⟩
      have hnext := ih h s hs
      rw [LabelTable.target?_define? hd] at hnext
      split at hnext
      · cases hnext
      · exact hnext

/-- Whether an entry takes the labels in front of it. -/
def Entry.isElement : Entry → Bool
  | .statement _ | .datum _ => true
  | _ => false

namespace Plan

/-- What the labels in front of an element are bound to. -/
def target (p : Plan) : Entry → LabelTarget
  | .statement _ => .instruction p.statements.length
  | _ => .data p.data.length

theorem bind_enter {p : Plan} {e : Entry} (he : e.isElement = true) (h : (p.enter e).Clean) :
    Draft.bind p.labels (p.target e) p.held = ((p.enter e).labels, []) := by
  cases e with
  | label | note => cases he
  | statement l =>
    have hs := h.1 _ (List.mem_append_right _ (List.mem_singleton.mpr rfl))
    exact Prod.ext rfl (List.append_eq_nil_iff.mp hs).1
  | datum d =>
    have hs := h.2 _ (List.mem_append_right _ (List.mem_singleton.mpr rfl))
    exact Prod.ext rfl (List.append_eq_nil_iff.mp hs).1

theorem labels_close (p : Plan) :
    p.close.labels = (Draft.bind p.labels (.data p.data.length) p.held).1 := by
  unfold close
  cases hl : p.held.getLast? with
  | none =>
    rw [List.getLast?_eq_none_iff.mp hl]
    rfl
  | some last => rfl

theorem bind_close {p : Plan} (h : p.close.Clean) :
    Draft.bind p.labels (.data p.data.length) p.held = (p.close.labels, []) := by
  cases hl : p.held.getLast? with
  | none =>
    rw [List.getLast?_eq_none_iff.mp hl, close, hl]
    rfl
  | some last =>
    rw [close, hl] at h ⊢
    have hs := h.2 _ (List.mem_append_right _ (List.mem_singleton.mpr rfl))
    exact Prod.ext rfl hs

theorem labels_enter {p : Plan} (e : Entry) {name : String} {x : LabelTarget}
    (hx : p.labels.target? name = some x) : (p.enter e).labels.target? name = some x := by
  cases e with
  | label | note => exact hx
  | statement | datum =>
    simp only [enter]
    rw [target?_bind, hx]
    rfl

/-- A binding stands to the end. -/
theorem labels_foldl {p : Plan} {es : List Entry} {name : String} {x : LabelTarget}
    (hx : p.labels.target? name = some x) :
    (es.foldl enter p).close.labels.target? name = some x := by
  induction es generalizing p with
  | nil =>
    rw [List.foldl_nil, labels_close, target?_bind, hx]
    rfl
  | cons e es ih => exact ih (labels_enter e hx)

/-- No label is bound as long as no element comes. -/
theorem labels_of_waiting {p : Plan} {es : List Entry} (hes : ∀ e ∈ es, e.isElement = false) :
    (es.foldl enter p).labels = p.labels := by
  induction es generalizing p with
  | nil => rfl
  | cons e es ih =>
    have he := hes e List.mem_cons_self
    refine (ih fun x hx => hes x (List.mem_cons_of_mem _ hx)).trans ?_
    cases e with
    | label | note => rfl
    | statement | datum => cases he

/-- Labels wait across other labels and notes. -/
theorem held_foldl {p : Plan} {es : List Entry} (hes : ∀ e ∈ es, e.isElement = false)
    {t : Token} (ht : t ∈ p.held) : t ∈ (es.foldl enter p).held := by
  induction es generalizing p with
  | nil => exact ht
  | cons e es ih =>
    have he := hes e List.mem_cons_self
    refine ih (fun x hx => hes x (List.mem_cons_of_mem _ hx)) ?_
    cases e with
    | label => exact List.mem_append_left _ ht
    | note => exact ht
    | statement | datum => cases he

theorem data_grow_close (p : Plan) : p.data <+: p.close.data := by
  unfold close
  split
  · exact List.prefix_refl _
  · exact List.prefix_append _ _

theorem data_close_of_held {p : Plan} (h : p.held ≠ []) : ∃ d, p.close.data = p.data ++ [d] := by
  unfold close
  split
  · next hl => exact absurd (List.getLast?_eq_none_iff.mp hl) h
  · exact ⟨_, rfl⟩

variable {p : Plan} {t : Token} {between after : List Entry} {e : Entry}

/-- A label whose name is free is bound to the next element. -/
theorem target_of_free (ht : t ∈ p.held) (hfree : p.labels.target? t.text = none)
    (hb : ∀ x ∈ between, x.isElement = false) (he : e.isElement = true) :
    ((between ++ e :: after).foldl enter p).close.labels.target? t.text =
      some ((between.foldl enter p).target e) := by
  rw [List.foldl_append, List.foldl_cons]
  have hlabels : ((between.foldl enter p).enter e).labels =
      (Draft.bind (between.foldl enter p).labels ((between.foldl enter p).target e)
        (between.foldl enter p).held).1 := by
    cases e with
    | label | note => cases he
    | statement | datum => rfl
  refine labels_foldl ?_
  rw [hlabels, target?_bind, labels_of_waiting hb, hfree,
    if_neg (named_ne_nil (held_foldl hb ht))]
  rfl

/-- At the end there is no element to come. -/
theorem target_of_last_free (ht : t ∈ p.held) (hfree : p.labels.target? t.text = none)
    (hb : ∀ x ∈ between, x.isElement = false) :
    (between.foldl enter p).close.labels.target? t.text =
      some (.data (between.foldl enter p).data.length) := by
  rw [labels_close, target?_bind, labels_of_waiting hb, hfree,
    if_neg (named_ne_nil (held_foldl hb ht))]
  rfl

theorem target_of_label (ht : t ∈ p.held) (hb : ∀ x ∈ between, x.isElement = false)
    (he : e.isElement = true) (h : ((between ++ e :: after).foldl enter p).close.Clean) :
    ((between ++ e :: after).foldl enter p).close.labels.target? t.text =
      some ((between.foldl enter p).target e) := by
  rw [List.foldl_append, List.foldl_cons] at h
  have hfree := free_of_clean (bind_enter he (clean_of_foldl (clean_of_close h))) t
    (held_foldl hb ht)
  rw [labels_of_waiting hb] at hfree
  exact target_of_free ht hfree hb he

theorem target_of_last_label (ht : t ∈ p.held) (hb : ∀ x ∈ between, x.isElement = false)
    (h : (between.foldl enter p).close.Clean) :
    (between.foldl enter p).close.labels.target? t.text =
      some (.data (between.foldl enter p).data.length) := by
  have hfree := free_of_clean (bind_close h) t (held_foldl hb ht)
  rw [labels_of_waiting hb] at hfree
  exact target_of_last_free ht hfree hb

end Plan

/-! ### Sizes -/

theorem total_map_eq_length {α : Type} {xs : List α} {size : α → Nat} {bytes : α → List Byte}
    (h : ∀ x ∈ xs, (bytes x).length = size x) :
    total (xs.map size) = (xs.flatMap bytes).length := by
  induction xs with
  | nil => rfl
  | cons x xs ih =>
    rw [List.map_cons, total, List.flatMap_cons, List.length_append, h x List.mem_cons_self,
      ih fun y hy => h y (List.mem_cons_of_mem _ hy)]

theorem total_take_le (xs : List Nat) (i : Nat) : total (xs.take i) ≤ total xs := by
  have h := total_append (xs.take i) (xs.drop i)
  rw [List.take_append_drop] at h
  omega

theorem getD_offsets {start : Nat} {xs : List Nat} {i : Nat} (h : i < xs.length) :
    (offsets start xs).toArray.getD i 0 = start + total (xs.take i) := by
  have ho := getElem?_offsets start xs i h
  simp [Array.getD_eq_getD_getElem?, ho]

theorem getD_offsets_le (start : Nat) (xs : List Nat) (i : Nat) :
    (offsets start xs).toArray.getD i 0 ≤ start + total xs := by
  by_cases h : i < xs.length
  · rw [getD_offsets h]
    have := total_take_le xs i
    omega
  · have hl := offsets_length start xs
    rw [Array.getD_eq_getD_getElem?, Array.getElem?_eq_none (by simpa [hl] using h)]
    exact Nat.zero_le _

/-- An element starts behind those that its list starts with. -/
theorem getD_offsets_of_front {α : Type} (start : Nat) {xs ys : List α} {y : α} (size : α → Nat)
    (h : xs ++ [y] <+: ys) :
    (offsets start (ys.map size)).toArray.getD xs.length 0 = start + total (xs.map size) := by
  obtain ⟨zs, rfl⟩ := h
  rw [getD_offsets (by simp)]
  simp

/-- An element starts behind the bytes of those that its list starts with. -/
theorem getD_offsets_of_grown {α : Type} (start : Nat) {xs ys : List α} {y : α} {size : α → Nat}
    {bytes : α → List Byte} (h : xs ++ [y] <+: ys) (hb : ∀ x ∈ ys, (bytes x).length = size x) :
    (offsets start (ys.map size)).toArray.getD xs.length 0 =
      start + (xs.flatMap bytes).length := by
  have hxs : ∀ x ∈ xs, (bytes x).length = size x := fun x hx =>
    hb x (h.subset (List.mem_append_left _ hx))
  rw [getD_offsets_of_front start size h, total_map_eq_length hxs]

section

variable {settings : Settings} {source : String} {p : Program}
  (h : (assemble settings source).program = some p) (hs : p.imageSize ≤ memorySize)

include h

theorem statement_length : ∀ s ∈ (draft settings source).plan.statements,
    (s.operation.encode (assemble settings source).labels).length = s.size :=
  fun s hm => encode_length_of_resolved ((accepted_of_some h).resolved s hm)

theorem codeSize_eq : (draft settings source).codeSize = p.code.length := by
  rw [eq_program_of_some h]
  exact total_map_eq_length (statement_length h)

theorem data_eq : p.data = (draft settings source).plan.data.flatMap (·.value.encode) := by
  rw [eq_program_of_some h]
  rfl

theorem size_eq_of_counted (hd : ∀ e ∈ (draft settings source).plan.data,
    e.value.encode.length = e.size) : (draft settings source).size = p.imageSize := by
  rw [Draft.size, codeSize_eq h, Program.imageSize, data_eq h]
  exact congrArg _ (total_map_eq_length hd)

include hs

theorem lookup_bounds {name : String} {a : Int}
    (ha : (assemble settings source).labels.lookup name = some a) : 0 ≤ a ∧ a < 65536 := by
  have hz := size_eq_of_counted h (datum_length_of_counted (textsCounted_of_fits h hs))
  simp only [Draft.size] at hz
  simp only [memorySize] at hs
  change ((draft settings source).labels.addresses _).lookup name = some a at ha
  rw [lookup_addresses] at ha
  obtain ⟨target, -, rfl⟩ := Option.map_eq_some_iff.mp ha
  cases target with
  | address w =>
    have hw := Word.toNat_lt w
    simp only
    omega
  | instruction i =>
    have hi := getD_offsets_le 0 (draft settings source).statementSizes i
    simp only [Draft.locate]
    simp only [Draft.codeSize] at hz
    omega
  | data i =>
    have hi := getD_offsets_le (draft settings source).codeSize (draft settings source).dataSizes i
    simp only [Draft.locate]
    omega

end

/-! ### Labels in the image -/

/-- The bytes of an entry, which are code or data. -/
def Entry.bytes (labels : Addresses) (e : Entry) : List Byte := e.codeBytes labels ++ e.dataBytes

/-- The bytes of a program in front of those of an element that stands behind the entries `front` of
its outline. -/
def bytesBefore (labels : Addresses) (es front : List Entry) : Entry → List Byte
  | .datum _ => es.flatMap (·.codeBytes labels) ++ front.flatMap (·.dataBytes)
  | _ => front.flatMap (·.codeBytes labels)

theorem bytesBefore_prefix_image {labels : Addresses} {es front after : List Entry} {e : Entry}
    (hes : es = front ++ e :: after) :
    bytesBefore labels es front e ++ e.bytes labels <+:
      es.flatMap (·.codeBytes labels) ++ es.flatMap (·.dataBytes) := by
  subst hes
  cases e <;> simp [bytesBefore, Entry.bytes, Entry.codeBytes, Entry.dataBytes]

/-- The address in an instruction. -/
def operandAddress? : Instruction → Option Word
  | .access _ _ _ a => some a
  | .jump _ a => some a
  | _ => none

theorem operandAddress?_of_label {labels : Addresses} {o : Operation} {t : Token} {bounded : Bool}
    {i : Instruction} {a : Int} (hl : o.label? = some (t, bounded))
    (hi : o.instruction? labels = some i) (ha : labels.lookup t.text = some a) :
    operandAddress? i = some (Word.ofInt a) := by
  cases o with
  | fixed | debug | note | invalid => cases hl
  | access op reg offset address =>
    cases address with
    | value => cases hl
    | label u =>
      cases hl
      simp only [Operation.instruction?, AddressOperand.resolve?, ha, Option.map_some] at hi
      cases hi
      rfl
  | jump kind target =>
    cases target with
    | value => cases hl
    | label u =>
      cases hl
      simp only [Operation.instruction?, AddressOperand.resolve?, ha, Option.map_some] at hi
      cases hi
      rfl

/-- What the labels of an outline stand for in the image of its program. -/
structure Located (es : List Entry) (labels : Addresses) (image : List Byte) : Prop where
  /-- A label stands for the place where the bytes of the next element start. -/
  next : ∀ before t between e after, es = (before ++ .label t :: between) ++ e :: after →
    (∀ x ∈ between, x.isElement = false) → e.isElement = true →
      labels.lookup t.text =
          some ((bytesBefore labels es (before ++ .label t :: between) e).length : Int) ∧
        bytesBefore labels es (before ++ .label t :: between) e ++ e.bytes labels <+: image
  /-- Where no element follows it stands for the end of the image. -/
  last : ∀ before t between, es = before ++ .label t :: between →
    (∀ x ∈ between, x.isElement = false) → labels.lookup t.text = some (image.length : Int)
  frameBuffer : labels.lookup "FRAME_BUFFER" = some 0x0C00
  /-- An operand that names a label holds its address. -/
  operand : ∀ front l after t bounded, es = front ++ .statement l :: after →
    l.operation.label? = some (t, bounded) →
      ∃ i a, l.operation.instruction? labels = some i ∧ operandAddress? i = some a ∧
        Instruction.front? (image.drop (front.flatMap (·.codeBytes labels)).length) = some i ∧
        labels.lookup t.text = some (a.toNat : Int)

section

variable {settings : Settings} {source : String} {p : Program}
  (h : (assemble settings source).program = some p)

include h

theorem clean_of_some :
    ((entries settings source).foldl Plan.enter {}).close.Clean := by
  rw [← draft_plan]
  exact (accepted_of_some h).clean

omit h in
/-- The address of a label comes of what it has been bound to, if anything. -/
theorem lookup_labels (settings : Settings) (source name : String) :
    (assemble settings source).labels.lookup name =
      ((draft settings source).plan.labels.target? name).map (Draft.locate
        (offsets 0 ((draft settings source).plan.statements.map (·.size))).toArray
        (offsets (draft settings source).codeSize
          ((draft settings source).plan.data.map (·.size))).toArray) := by
  change ((draft settings source).labels.addresses _).lookup name = _
  rw [lookup_addresses]
  change Option.map _ ((draft settings source).plan.labels.target? name) = _
  congr 1
  funext target
  cases target <;> rfl

/-- The address of a label that has been bound to an element. -/
theorem lookup_of_target {name : String} {target : LabelTarget}
    (ht : ((entries settings source).foldl Plan.enter {}).close.labels.target? name = some target) :
    (assemble settings source).labels.lookup name = some (Draft.locate
      (offsets 0 ((draft settings source).plan.statements.map (·.size))).toArray
      (offsets p.code.length ((draft settings source).plan.data.map (·.size))).toArray target) := by
  rw [← draft_plan] at ht
  rw [lookup_labels, ht, codeSize_eq h]
  rfl

variable (hs : p.imageSize ≤ memorySize)

include hs

theorem lookup_of_element {front after : List Entry} {e : Entry} {name : String}
    (hes : entries settings source = front ++ e :: after) (he : e.isElement = true)
    (ht : ((entries settings source).foldl Plan.enter {}).close.labels.target? name =
      some ((front.foldl Plan.enter {}).target e)) :
    (assemble settings source).labels.lookup name =
      some ((bytesBefore (assemble settings source).labels (entries settings source) front
        e).length : Int) := by
  rw [lookup_of_target h ht]
  have hcode := Plan.code_foldl (assemble settings source).labels {} front
  have hdata := Plan.data_foldl {} front
  cases e with
  | label | note => cases he
  | statement l =>
    obtain ⟨s, hp⟩ := Plan.statements_at {} front after l
    rw [← hes, ← statements_of_draft] at hp
    have hl := getD_offsets_of_grown 0 hp (statement_length h)
    simp only [Plan.target, Draft.locate, bytesBefore]
    rw [hl, hcode]
    simp
  | datum d =>
    obtain ⟨d', hp⟩ := Plan.data_at {} front after d
    replace hp := hp.trans (Plan.data_grow_close _)
    rw [← hes, ← draft_plan] at hp
    have hl := getD_offsets_of_grown p.code.length hp
      (datum_length_of_counted (textsCounted_of_fits h hs))
    simp only [Plan.target, Draft.locate, bytesBefore]
    rw [hl, hdata, code_of_some h]
    simp

theorem lookup_of_last {name : String}
    (hheld : ((entries settings source).foldl Plan.enter {}).held ≠ [])
    (ht : ((entries settings source).foldl Plan.enter {}).close.labels.target? name =
      some (.data ((entries settings source).foldl Plan.enter {}).data.length)) :
    (assemble settings source).labels.lookup name =
      some ((p.code ++ p.data).length : Int) := by
  rw [lookup_of_target h ht]
  have hdata := Plan.data_foldl {} (entries settings source)
  obtain ⟨d, hd⟩ := Plan.data_close_of_held hheld
  have hp : ((entries settings source).foldl Plan.enter {}).data ++ [d] <+:
      (draft settings source).plan.data := by
    rw [draft_plan, hd]
  have hl := getD_offsets_of_grown p.code.length hp
      (datum_length_of_counted (textsCounted_of_fits h hs))
  simp only [Draft.locate]
  rw [hl, hdata, List.length_append, data_of_some h]
  simp

theorem operand_of_label {front after : List Entry} {l : TextLine} {t : Token} {bounded : Bool}
    (hes : entries settings source = front ++ .statement l :: after)
    (hl : l.operation.label? = some (t, bounded)) :
    ∃ i a, l.operation.instruction? (assemble settings source).labels = some i ∧
      operandAddress? i = some a ∧
      Instruction.front? ((p.code ++ p.data).drop
        (front.flatMap (·.codeBytes (assemble settings source).labels)).length) = some i ∧
      (assemble settings source).labels.lookup t.text = some (a.toNat : Int) := by
  obtain ⟨hstands, hres⟩ := stands_of_accepted (accepted_of_some h) (l := l) (by simp [hes])
  obtain ⟨i, hi, hcanon⟩ := canonical_of_stands hstands hres
  obtain ⟨a, hlookup, -⟩ := hres t bounded hl
  obtain ⟨h0, h1⟩ := lookup_bounds h hs hlookup
  refine ⟨i, Word.ofInt a, hi, operandAddress?_of_label hl hi hlookup, ?_, ?_⟩
  · rw [code_of_some h, hes, List.flatMap_append, List.flatMap_cons, List.append_assoc,
      List.append_assoc, List.drop_left]
    change Instruction.front? (l.operation.encode _ ++ _) = some i
    rw [encode_of_instruction? hi]
    exact Instruction.front?_encode hcanon _
  · rw [hlookup, Word.toNat_ofInt h0 h1, Int.toNat_of_nonneg h0]

/-- In a program that fits in memory every label stands for the address of what it was written in
front of, and this is what the operands that name it hold. -/
theorem labels_located :
    Located (entries settings source) (assemble settings source).labels (p.code ++ p.data) where
  next before t between e after hes hb he := by
    have hc := clean_of_some h
    rw [hes, List.append_assoc, List.cons_append, List.foldl_append, List.foldl_cons] at hc
    have ht := Plan.target_of_label (List.mem_append_right _ (List.mem_singleton.mpr rfl)) hb he hc
    refine ⟨lookup_of_element h hs hes he ?_, ?_⟩
    · rw [hes, List.append_assoc, List.cons_append, List.foldl_append, List.foldl_cons, ht,
        List.foldl_append, List.foldl_cons]
    · rw [code_of_some h, data_of_some h]
      exact bytesBefore_prefix_image hes
  last before t between hes hb := by
    have hc := clean_of_some h
    rw [hes, List.foldl_append, List.foldl_cons] at hc
    have hm : t ∈ ((before.foldl Plan.enter {}).enter (.label t)).held :=
      List.mem_append_right _ (List.mem_singleton.mpr rfl)
    have ht := Plan.target_of_last_label hm hb hc
    refine lookup_of_last h hs ?_ ?_
    · rw [hes, List.foldl_append, List.foldl_cons]
      exact List.ne_nil_of_mem (Plan.held_foldl hb hm)
    · rw [hes, List.foldl_append, List.foldl_cons]
      exact ht
  frameBuffer := by
    have ht : ((entries settings source).foldl Plan.enter {}).close.labels.target?
        "FRAME_BUFFER" = some (.address 0x0C00) := Plan.labels_foldl rfl
    exact lookup_of_target h ht
  operand front l after t bounded hes hl := operand_of_label h hs hes hl

end

theorem labels_located_of_greeting :
    let source :=
      "la a0 text\n.data\ntext: @line 7\n\"hi\"\n.text\nagain: done:\nsys wstr\nj again\nend:"
    ∃ p, (assemble {} source).program = some p ∧ p.imageSize ≤ memorySize ∧
      (assemble {} source).labels =
        [("end", 11), ("done", 4), ("again", 4), ("text", 8), ("FRAME_BUFFER", 0x0C00)] ∧
      Located (entries {} source) (assemble {} source).labels (p.code ++ p.data) := by
  intro source
  have hp : (assemble {} source).program.map (·.imageSize) = some 11 := by decide +kernel
  obtain ⟨p, hp, hz⟩ := Option.map_eq_some_iff.mp hp
  have hs : p.imageSize ≤ memorySize := by
    rw [hz]
    decide
  exact ⟨p, hp, hs, by decide +kernel, labels_located hp hs⟩

end Minicomputer.Assembly
