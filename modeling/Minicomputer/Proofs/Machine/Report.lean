import Minicomputer.Proofs.Machine.Cycle

/-!
# What listeners learn

A listener may keep a copy of the registers and the memory and write into it what it is told. Of a
machine that only elementary actions have changed, such a copy agrees with the machine, the changes
of status lead to its status, and the printed texts are what its console has gained.
-/

set_option autoImplicit false

namespace Minicomputer

theorem exists_of_bind_eq_ok {ε α β : Type} {x : Except ε α} {f : α → Except ε β} {b : β}
    (h : x >>= f = .ok b) : ∃ a, x = .ok a ∧ f a = .ok b := by
  cases x with
  | error e => cases h
  | ok a => exact ⟨a, rfl, h⟩

/-- A word is stored as two bytes. -/
theorem Memory.writeByte_of_writeWord {m n : Memory} {a : Int} {w : Word}
    (h : m.writeWord a w = .ok n) :
    ∃ k, m.writeByte a w.high = .ok k ∧ k.writeByte (a + 1) w.low = .ok n := by
  obtain ⟨i, -, h⟩ := exists_of_bind_eq_ok h
  exact exists_of_bind_eq_ok h

/-! ### Listeners -/

namespace Audience

/-- What one listener has heard, in the order in which it was told. -/
def heard (a : Audience) (listener : Nat) : List Announcement :=
  (a.journal.toList.filter fun d => d.listener = listener).map (·.announcement)

/-- No listener is there twice, and the next one gets a number of its own. -/
structure Numbered (a : Audience) : Prop where
  nodup : a.listeners.Nodup
  lt_next : ∀ l ∈ a.listeners, l < a.next

theorem numbered_empty : Numbered {} := ⟨.nil, nofun⟩

theorem Numbered.subscribe {a : Audience} (h : a.Numbered) : a.subscribe.2.Numbered := by
  constructor
  · apply List.nodup_append'.mpr
    refine ⟨h.nodup, List.nodup_singleton _, ?_⟩
    intro l hl hn
    have hlt := h.lt_next l hl
    rw [List.mem_singleton.mp hn] at hlt
    exact Nat.lt_irrefl _ hlt
  · intro l hl
    show l < a.next + 1
    obtain hl | hl := List.mem_append.mp hl
    · have hlt := h.lt_next l hl
      omega
    · have he := List.mem_singleton.mp hl
      omega

theorem Numbered.unsubscribe {a : Audience} (h : a.Numbered) (l : Nat) :
    (a.unsubscribe l).2.Numbered where
  nodup := h.nodup.erase l
  lt_next k hk := h.lt_next k (List.mem_of_mem_erase hk)

theorem numbered_announce {a : Audience} (news : List Announcement) :
    (a.announce news).Numbered ↔ a.Numbered :=
  ⟨fun h => ⟨h.nodup, h.lt_next⟩, fun h => ⟨h.nodup, h.lt_next⟩⟩

theorem filter_deliveries_of_not_mem {listeners : List Nat} (news : List Announcement) {l : Nat}
    (hl : l ∉ listeners) :
    ((listeners.flatMap fun k => news.map (Delivery.mk k)).filter fun d => d.listener = l) =
      [] := by
  apply List.filter_eq_nil_iff.mpr
  intro d hd
  obtain ⟨k, hk, hd⟩ := List.mem_flatMap.mp hd
  obtain ⟨x, -, rfl⟩ := List.mem_map.mp hd
  have hne : k ≠ l := fun e => hl (e ▸ hk)
  simpa using hne

/-- Of what is delivered to all, a listener gets the news once. -/
theorem filter_deliveries {listeners : List Nat} (news : List Announcement) {l : Nat}
    (hl : l ∈ listeners) (hn : listeners.Nodup) :
    ((listeners.flatMap fun k => news.map (Delivery.mk k)).filter fun d => d.listener = l).map
      (·.announcement) = news := by
  induction listeners with
  | nil => cases hl
  | cons k ks ih =>
    have hk := List.nodup_cons.mp hn
    rw [List.flatMap_cons, List.filter_append, List.map_append]
    by_cases he : k = l
    · subst he
      rw [filter_deliveries_of_not_mem news hk.1]
      simp [List.filter_map, Function.comp_def]
    · have hmem : l ∈ ks := (List.mem_cons.mp hl).resolve_left fun e => he e.symm
      rw [ih hmem hk.2]
      simp [List.filter_map, Function.comp_def, he]

theorem heard_announce {a : Audience} {l : Nat} (hl : l ∈ a.listeners) (hn : a.listeners.Nodup)
    (news : List Announcement) : (a.announce news).heard l = a.heard l ++ news := by
  unfold heard announce
  rw [Array.toList_appendList, List.filter_append, List.map_append,
    filter_deliveries news hl hn]

end Audience

/-! ### What a listener makes of its news -/

/-- The copy that a listener keeps. -/
@[ext] structure Replica where
  registers : RegisterFile
  memory : Memory
  deriving DecidableEq

namespace Replica

/-- Changes of registers and memory are written down, and nothing else is. -/
def hear (r : Replica) : Announcement → Replica
  | .registerUpdated reg value => { r with registers := r.registers.set reg value }
  | .memoryUpdated a b => { r with memory := ⟨r.memory.bytes.setIfInBounds a.toNat b⟩ }
  | _ => r

def listen (r : Replica) (news : List Announcement) : Replica := news.foldl hear r

theorem listen_append (r : Replica) (news more : List Announcement) :
    r.listen (news ++ more) = (r.listen news).listen more :=
  List.foldl_append

end Replica

namespace Announcement

def change? : Announcement → Option (Status × Status)
  | statusChanged before after => some (before, after)
  | _ => none

def text? : Announcement → Option String
  | printed text => some text
  | _ => none

/-- Whether it marks a point of a cycle: its fetch, or the start or the end of its execution. -/
def isMark : Announcement → Bool
  | fetched _ _ | beforeExecution _ | afterExecution _ => true
  | _ => false

/-- The text of all that was printed. -/
def printedText (news : List Announcement) : String := String.join (news.filterMap text?)

/-- The marks among some news. -/
def marks (news : List Announcement) : List Announcement := news.filter isMark

theorem printedText_append (news more : List Announcement) :
    printedText (news ++ more) = printedText news ++ printedText more := by
  unfold printedText
  rw [List.filterMap_append, String.join_append]

theorem printedText_printed (s : String) : printedText [.printed s] = s := by
  simp [printedText, text?]

theorem marks_append (news more : List Announcement) :
    marks (news ++ more) = marks news ++ marks more :=
  List.filter_append ..

end Announcement

/-- Changes that lead from one status to another: each begins where the last one ended, and each
ends somewhere else. -/
def Status.Leads : Status → List (Status × Status) → Status → Prop
  | s, [], t => s = t
  | s, (before, after) :: changes, t => before = s ∧ before ≠ after ∧ Leads after changes t

theorem Status.leads_append {s t u : Status} {changes more : List (Status × Status)}
    (h : s.Leads changes t) (hm : t.Leads more u) : s.Leads (changes ++ more) u := by
  induction changes generalizing s with
  | nil =>
    have he : s = t := h
    exact he ▸ hm
  | cons change changes ih => exact ⟨h.1, h.2.1, ih h.2.2⟩

/-! ### What is told of a change -/

namespace Machine

open Announcement

variable {σ : Type} {l m n : Machine σ} {news more : List Announcement}

def replica (m : Machine σ) : Replica := ⟨m.registers, m.memory⟩

def heard (m : Machine σ) (listener : Nat) : List Announcement := m.audience.heard listener

/-- One machine has become another, and this is what the listeners were told of it. -/
structure Told (m : Machine σ) (news : List Announcement) (n : Machine σ) : Prop where
  replica : m.replica.listen news = n.replica
  status : m.status.Leads (news.filterMap change?) n.status
  output : n.console.output = m.console.output ++ printedText news
  listeners : n.audience.listeners = m.audience.listeners
  next : n.audience.next = m.audience.next
  heard : ∀ k ∈ m.audience.listeners, m.audience.listeners.Nodup →
    n.heard k = m.heard k ++ news

theorem Told.trans (h : l.Told news m) (hm : m.Told more n) : l.Told (news ++ more) n where
  replica := by rw [Replica.listen_append, h.replica, hm.replica]
  status := by
    rw [List.filterMap_append]
    exact Status.leads_append h.status hm.status
  output := by rw [hm.output, h.output, printedText_append, String.append_assoc]
  listeners := hm.listeners.trans h.listeners
  next := hm.next.trans h.next
  heard k hk hn := by
    have hm := hm.heard k (h.listeners ▸ hk) (h.listeners ▸ hn)
    rw [hm, h.heard k hk hn, List.append_assoc]

theorem Told.numbered (h : m.Told news n) (hm : m.audience.Numbered) : n.audience.Numbered where
  nodup := h.listeners ▸ hm.nodup
  lt_next k hk := by
    rw [h.next]
    exact hm.lt_next k (h.listeners ▸ hk)

/-- All listeners hear an announcement, which has to say how the machine got here. -/
theorem told_announce (haudience : n.audience = m.audience)
    (hreplica : m.replica.listen news = n.replica)
    (hstatus : m.status.Leads (news.filterMap change?) n.status)
    (houtput : n.console.output = m.console.output ++ printedText news) :
    m.Told news (n.announce news) where
  replica := hreplica
  status := hstatus
  output := houtput
  listeners := congrArg (fun a => (a.announce news).listeners) haudience
  next := congrArg (fun a => (a.announce news).next) haudience
  heard k hk hn := by
    have h := Audience.heard_announce hk hn news
    rw [← haudience] at h
    unfold Machine.heard
    rw [← haudience]
    exact h

/-- Nobody needs to be told of changes elsewhere in the machine. -/
theorem told_nil (haudience : n.audience = m.audience) (hregisters : n.registers = m.registers)
    (hmemory : n.memory = m.memory) (hstatus : n.status = m.status)
    (hconsole : n.console.output = m.console.output) : m.Told [] n where
  replica := by
    show m.replica = n.replica
    unfold Machine.replica
    rw [hregisters, hmemory]
  status := hstatus.symm
  output := hconsole.trans (String.append_empty).symm
  listeners := congrArg Audience.listeners haudience
  next := congrArg Audience.next haudience
  heard k _ _ := by
    unfold Machine.heard
    rw [haudience, List.append_nil]

theorem told_refl (m : Machine σ) : m.Told [] m := told_nil rfl rfl rfl rfl rfl

theorem told_mark (m : Machine σ) {a : Announcement} (ha : a.isMark = true) :
    m.Told [a] (m.announce [a]) := by
  cases a with
  | fetched | beforeExecution | afterExecution =>
    exact told_announce rfl rfl rfl String.append_empty.symm
  | _ => cases ha

theorem told_setRegister (m : Machine σ) (r : Register) (w : Word) :
    m.Told [.registerUpdated r w] (m.setRegister r w) :=
  told_announce rfl rfl rfl String.append_empty.symm

/-- The flags are announced as a whole, which tells of the one that is set. -/
theorem told_setTestFlag (m : Machine σ) (value : Bool) :
    m.Told [.registerUpdated .flags ((m.registers.setTestFlag value).get .flags)]
      (m.setTestFlag value) := by
  refine told_announce rfl ?_ rfl String.append_empty.symm
  have hf : m.registers.set .flags ((m.registers.setTestFlag value).get .flags) =
      m.registers.setTestFlag value := by
    rw [RegisterFile.get_flags_setTestFlag]
    cases value <;> rfl
  exact congrArg (Replica.mk · m.memory) hf

theorem told_print (m : Machine σ) (s : String) : m.Told [.printed s] (m.print s) :=
  told_announce rfl rfl rfl (congrArg (m.console.output ++ ·) (printedText_printed s).symm)

/-- A change of status is announced, and a status that stays is not. -/
def statusNews (before after : Status) : List Announcement :=
  if before = after then [] else [.statusChanged before after]

theorem marks_statusNews (before after : Status) : marks (statusNews before after) = [] := by
  unfold statusNews
  split <;> rfl

theorem listen_statusNews (r : Replica) (before after : Status) :
    r.listen (statusNews before after) = r := by
  unfold statusNews
  split <;> rfl

theorem told_setStatus (m : Machine σ) (status : Status) :
    m.Told (statusNews m.status status) (m.setStatus status) := by
  unfold statusNews setStatus
  split
  · exact told_refl m
  · next h => exact told_announce rfl rfl ⟨rfl, h, rfl⟩ String.append_empty.symm

theorem numbered_reset (S : System σ) (h : m.audience.Numbered) :
    (m.reset S).audience.Numbered := by
  apply (Audience.numbered_announce _).mpr
  exact (told_setStatus _ _).numbered h

theorem numbered_load (S : System σ) (p : Program) (h : m.audience.Numbered) :
    (m.load S p).2.audience.Numbered := by
  have hr := numbered_reset S h
  unfold load
  dsimp only
  split
  · exact hr
  · split <;> exact hr

/-- Addresses are announced as words, which hold each address in memory. -/
theorem hear_memoryUpdated {memory memory' : Memory} {a : Int} {b : Byte}
    (h : memory.writeByte a b = .ok memory') (registers : RegisterFile) :
    (Replica.mk registers memory).hear (.memoryUpdated (Word.ofInt a) b) =
      ⟨registers, memory'⟩ := by
  obtain ⟨i, rfl, rfl⟩ := Memory.writeByte_eq_ok_iff.mp h
  have hi : (Word.ofInt i.val).toNat = i.val := by
    rw [Word.toNat_ofInt (by omega) (by omega), Int.toNat_natCast]
  show (⟨registers, ⟨memory.bytes.setIfInBounds (Word.ofInt i.val).toNat b⟩⟩ : Replica) = _
  rw [hi]
  congr 2
  apply Vector.ext
  intro k hk
  rw [Vector.getElem_setIfInBounds, Vector.getElem_set]

theorem told_writeByte {a : Int} {b : Byte} (h : m.writeByte a b = .ok n) :
    m.Told [.memoryUpdated (Word.ofInt a) b] n := by
  obtain ⟨memory, hw, hn⟩ := exists_of_bind_eq_ok h
  cases hn
  exact told_announce rfl (hear_memoryUpdated hw m.registers) rfl String.append_empty.symm

/-- The two bytes of a word are announced one after the other when both have been written. -/
theorem told_writeWord {a : Int} {w : Word} (h : m.writeWord a w = .ok n) :
    m.Told [.memoryUpdated (Word.ofInt a) w.high, .memoryUpdated (Word.ofInt (a + 1)) w.low] n := by
  obtain ⟨memory, hw, hn⟩ := exists_of_bind_eq_ok h
  cases hn
  obtain ⟨half, hhigh, hlow⟩ := Memory.writeByte_of_writeWord hw
  refine told_announce rfl ?_ rfl String.append_empty.symm
  calc m.replica.listen [.memoryUpdated (Word.ofInt a) w.high,
        .memoryUpdated (Word.ofInt (a + 1)) w.low]
      = (m.replica.hear (.memoryUpdated (Word.ofInt a) w.high)).hear
          (.memoryUpdated (Word.ofInt (a + 1)) w.low) := rfl
    _ = (Replica.mk m.registers half).hear (.memoryUpdated (Word.ofInt (a + 1)) w.low) :=
        congrArg (Replica.hear · _) (hear_memoryUpdated hhigh m.registers)
    _ = ⟨m.registers, memory⟩ := hear_memoryUpdated hlow m.registers

/-- All that has changed has been told, and the news mark no point of a cycle. -/
def Reported (m n : Machine σ) : Prop := ∃ news, marks news = [] ∧ m.Told news n

theorem reported_refl (m : Machine σ) : m.Reported m := ⟨[], rfl, told_refl m⟩

theorem Reported.trans (h : l.Reported m) (hm : m.Reported n) : l.Reported n := by
  obtain ⟨news, hmarks, htold⟩ := h
  obtain ⟨more, hmore, htold'⟩ := hm
  refine ⟨news ++ more, ?_, htold.trans htold'⟩
  rw [marks_append, hmarks, hmore, List.append_nil]

theorem reported_setStatus (m : Machine σ) (status : Status) :
    m.Reported (m.setStatus status) :=
  ⟨_, marks_statusNews _ _, told_setStatus m status⟩

end Machine

namespace Action

open Minicomputer.Machine Announcement

variable {σ α β : Type}

/-- Whatever machine the action is done to, all that it changes is told. -/
def Reports (x : Action σ α) : Prop := ∀ m : Machine σ, m.Reported (x.run m).2

theorem Reports.bind {x : Action σ α} {f : α → Action σ β} (hx : Reports x)
    (hf : ∀ a, Reports (f a)) : Reports (x >>= f) := by
  intro m
  have hm := hx m
  rcases hr : x.run m with ⟨_ | a, n⟩ <;> rw [hr] at hm
  · rw [run_bind_of_error hr]
    exact hm
  · rw [run_bind_of_ok hr]
    exact hm.trans (hf a n)

theorem reports_ofMemory (x : Except MemoryFault α) : Reports (ofMemory x : Action σ α) := by
  intro m
  rw [run_ofMemory]
  exact reported_refl m

theorem reports_storeByte (a : Int) (b : Byte) : Reports (storeByte a b : Action σ Unit) := by
  intro m
  show m.Reported ((ofMemory (m.writeByte a b) >>= fun m => set m : Action σ Unit).run m).2
  cases h : m.writeByte a b with
  | error e => exact reported_refl m
  | ok n => exact ⟨_, rfl, told_writeByte h⟩

theorem reports_storeWord (a : Int) (w : Word) : Reports (storeWord a w : Action σ Unit) := by
  intro m
  show m.Reported ((ofMemory (m.writeWord a w) >>= fun m => set m : Action σ Unit).run m).2
  cases h : m.writeWord a w with
  | error e => exact reported_refl m
  | ok n => exact ⟨_, rfl, told_writeWord h⟩

theorem Composed.reports {x : Action σ α} (h : Composed x) : Reports x := by
  induction h with
  | pure a => exact reported_refl
  | throw e => exact reported_refl
  | bind _ _ ihx ihf => exact ihx.bind ihf
  | register r => exact reported_refl
  | setRegister hr w => exact fun m => ⟨_, rfl, told_setRegister m _ w⟩
  | setTestFlag value => exact fun m => ⟨_, rfl, told_setTestFlag m value⟩
  | loadByte a => exact fun m => reports_ofMemory (m.memory.readByte a) m
  | loadWord a => exact fun m => reports_ofMemory (m.memory.readWord a) m
  | loadText a => exact fun m => reports_ofMemory (m.memory.readText a) m
  | storeByte a b => exact reports_storeByte a b
  | storeWord a w => exact reports_storeWord a w
  | print s => exact fun m => ⟨_, rfl, told_print m s⟩
  | debug index => exact fun m => ⟨[], rfl, told_nil rfl rfl rfl rfl rfl⟩

/-! ### Cycles -/

theorem told_fetched (m : Machine σ) (word data : Word) :
    m.Told [.registerUpdated .ir word, .registerUpdated .dr data, .fetched m.pc word]
      (m.fetched word data) :=
  ((told_setRegister m .ir word).trans (told_setRegister _ .dr data)).trans (told_mark _ rfl)

theorem told_poised (m : Machine σ) (word data : Word) (i : Instruction) :
    m.Told [.registerUpdated .ir word, .registerUpdated .dr data, .fetched m.pc word,
        .registerUpdated .pc (m.pc + UInt16.ofNat i.size), .beforeExecution word]
      (m.poised word data i) :=
  ((told_fetched m word data).trans (told_setRegister _ .pc _)).trans (told_mark _ rfl)

theorem told_tick (m : Machine σ) : m.Told [] m.tick := told_nil rfl rfl rfl rfl rfl

/-- The marks of one whole cycle: the fetch of a word from the program counter, and the start and
the end of its execution. -/
def cycleMarks (pc word : Word) : List Announcement :=
  [.fetched pc word, .beforeExecution word, .afterExecution word]

variable (S : System σ) (hS : ∀ c, Reports (systemCall S c))

include hS

theorem reports_execute {i : Instruction} (hc : i.Canonical) : Reports (execute S i) := by
  by_cases hs : ∃ c, i = .sys c
  · obtain ⟨c, rfl⟩ := hs
    exact hS c
  · exact (composed_execute S hc fun c e => hs ⟨c, e⟩).reports

/-- Where the operating system tells what it does, all that a cycle does is told, up to its fault
where it has one. -/
theorem fetchAndExecute_told (m : Machine σ) :
    (∃ i n word news, (fetchAndExecute S).run m = (.ok i, n) ∧ m.Told news n ∧
        m.memory.readWord m.pc.toNat = .ok word ∧ marks news = cycleMarks m.pc word) ∨
      ∃ e n news, (fetchAndExecute S).run m = (.error e, n) ∧ m.Told news n := by
  cases m.finds with
  | instruction word data i hp hd =>
    have hr := run_fetchAndExecute_of_some S hp hd
    have hbefore := told_poised m word data i
    obtain ⟨news, hmarks, hnews⟩ :=
      reports_execute S hS (Instruction.canonical_of_decode hd) (m.poised word data i)
    rcases he : (execute S i).run (m.poised word data i) with ⟨e | _, n⟩ <;> rw [he] at hr hnews
    · exact .inr ⟨e, n, _, hr, hbefore.trans hnews⟩
    · have hafter : n.Told [.afterExecution word] (n.announce [.afterExecution word]).tick :=
        (told_mark n rfl).trans (told_tick _)
      refine .inl ⟨i, _, word, _, hr, (hbefore.trans hnews).trans hafter, hp.1, ?_⟩
      rw [marks_append, marks_append, hmarks]
      rfl
  | undecodable word data hp hd =>
    exact .inr ⟨_, _, _, run_fetchAndExecute_of_none S hp hd, told_fetched m word data⟩
  | nothing hp =>
    obtain ⟨e, n, he, hn⟩ := run_fetch_of_not_presents hp
    have hr := run_fetchAndExecute_of_error S he
    obtain rfl | ⟨word, rfl⟩ := hn
    · exact .inr ⟨e, n, [], hr, told_refl n⟩
    · exact .inr ⟨e, _, _, hr, told_setRegister m .ir word⟩

end Action
end Minicomputer
