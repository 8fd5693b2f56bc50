import Minicomputer.Machine.Status
import Minicomputer.Register

/-!
# Announcements

A machine announces what it does to an audience of listeners. What each listener has heard is kept
in a journal, in the order in which it was told.
-/

set_option autoImplicit false

namespace Minicomputer

inductive Announcement where
  | registerUpdated (reg : Register) (value : Word)
  | memoryUpdated (address : Word) (value : Byte)
  | fetched (pc word : Word)
  | beforeExecution (word : Word)
  | afterExecution (word : Word)
  | statusChanged (before after : Status)
  | printed (text : String)
  | reset
  deriving DecidableEq, Repr

structure Delivery where
  listener : Nat
  announcement : Announcement
  deriving DecidableEq, Repr

/-- Listeners are numbered as they come; a number is not used again. -/
structure Audience where
  listeners : List Nat := []
  next : Nat := 0
  journal : Array Delivery := #[]
  deriving Inhabited

namespace Audience

def subscribe (a : Audience) : Nat × Audience :=
  (a.next, { a with listeners := a.listeners ++ [a.next], next := a.next + 1 })

/-- Removes a listener and tells whether there was one. -/
def unsubscribe (a : Audience) (listener : Nat) : Bool × Audience :=
  (a.listeners.contains listener, { a with listeners := a.listeners.erase listener })

def isEmpty (a : Audience) : Bool := a.listeners.isEmpty

def announce (a : Audience) (news : List Announcement) : Audience :=
  { a with journal := a.journal ++ a.listeners.flatMap fun l => news.map (Delivery.mk l) }

/-- The journal so far, which starts a new one. -/
def takeJournal (a : Audience) : List Delivery × Audience :=
  (a.journal.toList, { a with journal := #[] })

def text (a : Audience) : String :=
  "EventBus \x7b listeners: " ++ toString a.listeners.length ++ " \x7d"

theorem announce_of_isEmpty {a : Audience} (h : a.isEmpty = true) (news : List Announcement) :
    a.announce news = a := by
  obtain ⟨listeners, next, journal⟩ := a
  obtain rfl : listeners = [] := by simpa [isEmpty] using h
  simp [announce]

end Audience

end Minicomputer
