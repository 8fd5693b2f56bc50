import Minicomputer.Proofs.Monitor.Agreement

/-!
# Formats

A format consists of ordinary characters, percent signs with the character behind them, and possibly
a percent sign at its end. What each of these prints depends on how many in front of it have taken a
register, and on nothing that has been printed.
-/

set_option autoImplicit false

namespace Minicomputer

/-- The characters from an address to the next NUL or the end of memory. There are none outside. -/
def Memory.charsAt (m : Memory) (address : Nat) : List Char :=
  ((m.bytes.toList.drop address).takeWhile (· != 0)).map Byte.char

theorem Memory.readText_eq (m : Memory) (address : Nat) :
    m.readText address = if address < 4096 then .ok (String.ofList (m.charsAt address))
      else .error (.outOfRange address) := by
  unfold readText
  rw [index_eq]
  by_cases h : address < 4096
  · rw [dif_pos (by omega), if_pos h]
    rfl
  · rw [dif_neg (by omega), if_neg h]
    rfl

namespace Monitor

open Minicomputer.Action

variable {σ α β : Type}

/-! ### Actions that read texts -/

/-- The first address outside memory is the fault. -/
def inMemory (addresses : List Word) (a : α) : Except Fault α :=
  match addresses.find? (4096 ≤ ·.toNat) with
  | none => .ok a
  | some w => .error (.memory (.outOfRange w.toNat))

/-- An action that leaves the machine alone and fails only for the addresses of its texts. -/
def ReadsAt (addresses : List Word) (a : α) (x : Action σ α) (m : Machine σ) : Prop :=
  x.run m = (inMemory addresses a, m)

variable {m : Machine σ} {ws vs : List Word} {a : α} {b : β}

theorem ReadsAt.bind {x : Action σ α} {f : α → Action σ β} (hx : ReadsAt ws a x m)
    (hf : ReadsAt vs b (f a) m) : ReadsAt (ws ++ vs) b (x >>= f) m := by
  unfold ReadsAt inMemory at *
  rw [List.find?_append]
  cases hw : ws.find? (4096 ≤ ·.toNat) with
  | none =>
    rw [hw] at hx
    rw [run_bind_of_ok hx, hf]
    rfl
  | some w =>
    rw [hw] at hx
    exact run_bind_of_error hx

theorem readsAt_pure (a : α) : ReadsAt [] a (pure a : Action σ α) m := rfl

theorem ReadsAt.map {x : Action σ α} (hx : ReadsAt ws a x m) (f : α → β) :
    ReadsAt ws (f a) (x >>= fun a => pure (f a)) m := by
  have h := hx.bind (f := fun a => pure (f a)) (readsAt_pure (f a))
  rwa [List.append_nil] at h

theorem readsAt_register (r : Register) :
    ReadsAt [] (m.registers.get r) (register r) m := rfl

theorem readsAt_loadText (w : Word) :
    ReadsAt [w] (String.ofList (m.memory.charsAt w.toNat)) (loadText w.toNat) m := by
  have hrun : (loadText w.toNat).run m = ((m.memory.readText w.toNat).mapError .memory, m) :=
    run_ofMemory _ m
  unfold ReadsAt inMemory
  rw [hrun, Memory.readText_eq, List.find?_singleton]
  by_cases h : w.toNat < 4096
  · rw [if_pos h, if_neg (by simpa using h)]
    rfl
  · rw [if_neg h, if_pos (by simpa using h)]
    rfl

/-! ### The parts of a format -/

inductive Part where
  | plain (c : Char)
  | marked (c : Char)
  | last
  deriving DecidableEq, Repr

namespace Part

/-- The characters of the format that a part stands for. -/
def source : Part → List Char
  | plain c => [c]
  | marked c => ['%', c]
  | last => ['%']

/-- A conversion takes the next register. -/
def takes : Part → Bool
  | marked c => c == 'd' || c == 'c' || c == 's'
  | _ => false

/-- What a part prints, given the register that it would take. -/
def printed (m : Machine σ) : Part → Option Register → List Char
  | marked '%', _ => ['%']
  | marked 'd', some r => (toString (m.registers.get r).signed).toList
  | marked 'c', some r => [(m.registers.get r).low.char]
  | marked 's', some r => m.memory.charsAt (m.registers.get r).toNat
  | p, _ => p.source

/-- The address that a part reads a text from. -/
def address? (m : Machine σ) : Part → Option Register → Option Word
  | marked 's', some r => some (m.registers.get r)
  | _, _ => none

end Part

/-- A percent sign belongs to the character behind it. -/
def parts : List Char → List Part
  | [] => []
  | ['%'] => [.last]
  | '%' :: c :: s => .marked c :: parts s
  | c :: s => .plain c :: parts s

theorem flatMap_source_parts (s : List Char) : (parts s).flatMap Part.source = s := by
  fun_induction parts s with
  | case1 => rfl
  | case2 => rfl
  | case3 c s ih => rw [List.flatMap_cons, ih]; rfl
  | case4 c s h₁ h₂ ih => rw [List.flatMap_cons, ih]; rfl

/-- The register that a part would take: conversions take the registers in order. -/
def argument? (rs : List Register) (ps : List Part) (i : Nat) : Option Register :=
  rs[(ps.take i).countP Part.takes]?

/-- What the parts of a format print, one after the other. -/
def expansion (m : Machine σ) (rs : List Register) (ps : List Part) : List Char :=
  (ps.mapIdx fun i p => p.printed m (argument? rs ps i)).flatten

/-- The addresses that the parts of a format read texts from, one after the other. -/
def textAddresses (m : Machine σ) (rs : List Register) (ps : List Part) : List Word :=
  (ps.mapIdx fun i p => p.address? m (argument? rs ps i)).reduceOption

/-- The registers that are left behind a part. -/
def remaining (rs : List Register) (p : Part) : List Register := if p.takes then rs.tail else rs

theorem argument?_cons_zero (rs : List Register) (p : Part) (ps : List Part) :
    argument? rs (p :: ps) 0 = rs.head? := List.head?_eq_getElem?.symm

theorem argument?_cons_succ (rs : List Register) (p : Part) (ps : List Part) (i : Nat) :
    argument? rs (p :: ps) (i + 1) = argument? (remaining rs p) ps i := by
  unfold argument? remaining
  rw [List.take_succ_cons, List.countP_cons]
  cases p.takes with
  | true => exact List.getElem?_tail.symm
  | false => rfl

/-- Without a conversion or a register, both signs are ordinary. -/
theorem Part.printed_of_no_argument {c : Char} {rs : List Register} (hc : c ≠ '%')
    (h : (marked c).takes = false ∨ rs = []) : (marked c).printed m rs.head? = ['%', c] := by
  unfold printed
  split <;> simp_all [takes, source]

theorem Part.address?_of_no_argument {p : Part} {rs : List Register}
    (h : p.takes = false ∨ rs = []) : p.address? m rs.head? = none := by
  unfold address?
  split <;> simp_all [takes]

theorem remaining_of_no_argument {p : Part} {rs : List Register} (h : p.takes = false ∨ rs = []) :
    remaining rs p = rs := by
  rcases h with h | rfl
  · exact if_neg (by rw [h]; exact Bool.false_ne_true)
  · exact ite_self []

theorem expansion_cons (m : Machine σ) (rs : List Register) (p : Part) (ps : List Part) :
    expansion m rs (p :: ps) = p.printed m rs.head? ++ expansion m (remaining rs p) ps := by
  unfold expansion
  rw [List.mapIdx_cons, List.flatten_cons, argument?_cons_zero]
  simp only [argument?_cons_succ]

theorem textAddresses_cons (m : Machine σ) (rs : List Register) (p : Part) (ps : List Part) :
    textAddresses m rs (p :: ps) =
      (p.address? m rs.head?).toList ++ textAddresses m (remaining rs p) ps := by
  unfold textAddresses
  rw [List.mapIdx_cons, argument?_cons_zero]
  simp only [argument?_cons_succ]
  cases p.address? m rs.head? <;> rfl

/-! ### The call -/

theorem readsAt_conversion {c : Char} {convert : Word → Action σ String} (r : Register)
    (h : format.conversion? c = some convert) :
    ∃ text, text.toList = (Part.marked c).printed m (some r) ∧
      ReadsAt ((Part.marked c).address? m (some r)).toList text (convert (m.registers.get r)) m := by
  unfold format.conversion? at h
  split at h <;> cases h
  · exact ⟨_, rfl, readsAt_pure _⟩
  · exact ⟨_, String.toList_singleton .., readsAt_pure _⟩
  · exact ⟨_, String.toList_ofList, readsAt_loadText _⟩

theorem isSome_conversion? (c : Char) :
    (format.conversion? (σ := σ) c).isSome = (Part.marked c).takes := by
  unfold format.conversion?
  split
  · rfl
  · rfl
  · rfl
  · next hd hc hs =>
    have hne : ¬((c = 'd' ∨ c = 'c') ∨ c = 's') := fun h => h.elim (fun h => h.elim hd hc) hs
    simpa [Part.takes, and_assoc] using hne

-- By induction along the format, for all registers that may be left: each conversion takes one.
theorem readsAt_format (rs : List Register) (s : List Char) :
    ReadsAt (textAddresses m rs (parts s)) (expansion m rs (parts s)) (format rs s) m := by
  fun_induction format rs s with
  | case1 => exact readsAt_pure _
  | case2 rs s ih =>
    rw [parts, textAddresses_cons, expansion_cons]
    exact ih.map _
  | case3 c s hc convert r rest hv ih =>
    obtain ⟨text, htext, hread⟩ := readsAt_conversion (m := m) r hv
    have htakes : (Part.marked c).takes = true := by rw [← isSome_conversion? (σ := σ), hv]; rfl
    have hrest : remaining (r :: rest) (.marked c) = rest := if_pos htakes
    rw [parts, textAddresses_cons, expansion_cons, hrest, List.head?_cons, ← htext]
    exact (readsAt_register r).bind (hread.bind (ih.map _))
  | case4 rs c s hc h ih =>
    have hnone : (Part.marked c).takes = false ∨ rs = [] := by
      cases rs with
      | nil => exact .inr rfl
      | cons r rest =>
        rw [← isSome_conversion? (σ := σ)]
        cases hv : format.conversion? c with
        | none => exact .inl rfl
        | some convert => exact (h convert r rest hv rfl).elim
    rw [parts, textAddresses_cons, expansion_cons, remaining_of_no_argument hnone,
      Part.printed_of_no_argument hc hnone, Part.address?_of_no_argument hnone]
    exact ih.map _
  | case5 rs c s h₁ h₂ ih =>
    -- What is left are ordinary characters and the percent sign that nothing follows.
    by_cases hc : c = '%'
    · cases s with
      | nil =>
        subst hc
        exact ih.map _
      | cons d s => exact (h₂ d s hc rfl).elim
    · have hplain : parts (c :: s) = .plain c :: parts s := by
        rw [parts]
        · exact fun h => absurd h hc
        · exact fun d t h => absurd h hc
      rw [hplain, textAddresses_cons, expansion_cons]
      exact ih.map _

/-- The part of the call that can fail. -/
def formatted : Action σ (List Char) := do
  format [.a1, .a2, .a3] (← loadText (← address .a0)).toList

theorem serve_printf_eq (clock : Nat) :
    (serve clock .printf : Action σ Reply) =
      formatted >>= fun text => print (String.ofList text) >>= fun _ => pure .proceed := by
  unfold formatted
  simp only [serve, bind_assoc]

/-- The parts of the format that a machine passes. -/
def formatParts (m : Machine σ) : List Part :=
  parts (m.memory.charsAt (m.registers.get .a0).toNat)

/-- The addresses of the format and of the texts that it asks for. -/
def textsRead (m : Machine σ) : List Word :=
  m.registers.get .a0 :: textAddresses m [.a1, .a2, .a3] (formatParts m)

/-- The text that the registers make of the format. -/
def filledIn (m : Machine σ) : String :=
  String.ofList (expansion m [.a1, .a2, .a3] (formatParts m))

theorem readsAt_formatted (m : Machine σ) :
    ReadsAt (textsRead m) (expansion m [.a1, .a2, .a3] (formatParts m)) formatted m := by
  have haddress : ReadsAt [] ((m.registers.get .a0).toNat : Int) (address .a0) m := rfl
  have hformat := readsAt_format (m := m) [.a1, .a2, .a3]
    (m.memory.charsAt (m.registers.get .a0).toNat)
  refine haddress.bind ((readsAt_loadText _).bind ?_)
  rw [String.toList_ofList]
  exact hformat

theorem call_printf_of_lt (s : Monitor) {m : Machine σ} (h : ∀ w ∈ textsRead m, w.toNat < 4096) :
    call SystemCall.printf.selector s m = ((.ok .proceed, s), m.print (filledIn m)) := by
  have hfind : (textsRead m).find? (4096 ≤ ·.toNat) = none :=
    List.find?_eq_none.mpr fun w hw => by simpa using h w hw
  have hread := readsAt_formatted m
  unfold ReadsAt inMemory at hread
  rw [hfind] at hread
  rw [call_selector (by decide), serve_printf_eq, run_bind_of_ok hread]
  rfl

theorem call_printf_of_find? (s : Monitor) {m : Machine σ} {w : Word}
    (h : (textsRead m).find? (4096 ≤ ·.toNat) = some w) :
    call SystemCall.printf.selector s m = ((.error (.memory (.outOfRange w.toNat)), s), m) := by
  have hread := readsAt_formatted m
  unfold ReadsAt inMemory at hread
  rw [h] at hread
  rw [call_selector (by decide), serve_printf_eq, run_bind_of_error hread]

/-- The call as an instruction makes it. -/
theorem run_execute_of_call {c : Byte} {s : Monitor} {m : Machine Monitor} (hs : m.system = some s)
    {answer : (Except Fault Reply × Monitor) × Machine Monitor}
    (hcall : call c s { m with system := none } = answer) :
    (execute system (.sys c)).run m = settle answer := by
  rw [execute, run_systemCall_of_some system c hs]
  exact congrArg settle hcall

/-- A format is printed part by part: ordinary characters and a last percent sign as they are, two
percent signs as one of them, the first three conversions as what is in the registers, and all other
conversions as they are. An address outside memory, be it that of the format or of a text that it
asks for, is a fault, and then nothing has been printed. -/
theorem printf_expands (s : Monitor) (m : Machine Monitor) :
    (formatParts m).flatMap Part.source = m.memory.charsAt (m.registers.get .a0).toNat ∧
    ((∀ w ∈ textsRead m, w.toNat < 4096) →
      call SystemCall.printf.selector s m = ((.ok .proceed, s), m.print (filledIn m)) ∧
      (m.system = some s → (execute system (.sys SystemCall.printf.selector)).run m =
        (.ok (), m.print (filledIn m)))) ∧
    ((∃ w ∈ textsRead m, 4096 ≤ w.toNat) →
      ∃ w, (textsRead m).find? (4096 ≤ ·.toNat) = some w ∧
        call SystemCall.printf.selector s m = ((.error (.memory (.outOfRange w.toNat)), s), m) ∧
        (m.system = some s → (execute system (.sys SystemCall.printf.selector)).run m =
          (.error (.memory (.outOfRange w.toNat)), m))) := by
  refine ⟨flatMap_source_parts _, fun h => ⟨call_printf_of_lt s h, fun hs => ?_⟩, ?_⟩
  · rw [run_execute_of_call hs (call_printf_of_lt s h)]
    cases m
    cases hs
    rfl
  · rintro ⟨v, hv, hout⟩
    have hsome : ((textsRead m).find? (4096 ≤ ·.toNat)).isSome = true :=
      List.find?_isSome.mpr ⟨v, hv, decide_eq_true hout⟩
    obtain ⟨w, hw⟩ := Option.isSome_iff_exists.mp hsome
    refine ⟨w, hw, call_printf_of_find? s hw, fun hs => ?_⟩
    rw [run_execute_of_call hs (call_printf_of_find? s hw)]
    cases m
    cases hs
    rfl

/-- A machine that passes the format `%d %s%% %q%c%d%` with the text `%d` in the middle. -/
def passing (text : Word) : Machine Monitor :=
  { Machine.new (ofSeed 0) with
    memory := (Memory.zero.place 100 (bytesOfText "%d %s%% %q%c%d%")).place 200 (bytesOfText "%d")
    registers := (((Machine.initialRegisters.set .a0 100).set .a1 (Word.ofInt (-3))).set
      .a2 text).set .a3 0x4178 }

theorem printf_expands_passing :
    call SystemCall.printf.selector (ofSeed 0) (passing 200) =
        ((.ok .proceed, ofSeed 0), (passing 200).print "-3 %d% %qx%d%") ∧
      call SystemCall.printf.selector (ofSeed 0) (passing 4096) =
        ((.error (.memory (.outOfRange 4096)), ofSeed 0), passing 4096) := by
  obtain ⟨-, hprints, -⟩ := printf_expands (ofSeed 0) (passing 200)
  obtain ⟨-, -, hfaults⟩ := printf_expands (ofSeed 0) (passing 4096)
  have htext : filledIn (passing 200) = "-3 %d% %qx%d%" := by decide +kernel
  have hread : textsRead (passing 200) = [100, 200] := by decide +kernel
  have hout : textsRead (passing 4096) = [100, 4096] := by decide +kernel
  rw [hread, htext] at hprints
  rw [hout] at hfaults
  obtain ⟨w, hw, hfault, -⟩ := hfaults ⟨4096, by decide, by decide⟩
  obtain rfl : 4096 = w := Option.some.inj hw
  exact ⟨(hprints (by simp)).1, hfault⟩

end Monitor
end Minicomputer
