import EventRelay.Store.Memory
import EventRelay.Store.Schema
import EventRelay.Json.Printer
/-!
# Stores of either kind

One interface to the store in memory and the store in tables, and snapshots of it.  A snapshot of the
memory store is fixed when it is opened, one of the table store at its first read.
-/

namespace EventRelay

inductive Store where
  | memory (s : MemoryStore)
  | rows (s : RowStore)
  deriving DecidableEq

namespace Store

def view : Store → View
  | .memory s => s.view
  | .rows s => s.view

/-- Stores an event together with its text. -/
def insertWithText (s : Store) (e : Event) (text : String) :
    Except InsertError (Option Nat × Store) :=
  match s with
  | .memory s => .ok (some (s.lastSeq + 1), .memory (s.insert e))
  | .rows s =>
    match s.insert e text with
    | .ok (seq, s) => .ok (seq, .rows s)
    | .error e => .error e

/-- Stores an event; its text is its wire form. -/
def insert (s : Store) (e : Event) : Except InsertError (Option Nat × Store) :=
  s.insertWithText e e.toJson.render

/-- Stores the event that a text writes; the text is kept as it is. -/
def insertText (s : Store) (text : String) : Except TextError (Option Nat × Store) :=
  match s with
  | .memory s => (Event.ofText text).map fun e => (some (s.lastSeq + 1), .memory (s.insert e))
  | .rows s => (s.insertText text).map fun r => (r.1, .rows r.2)

def delete? (s : Store) (seq : Nat) : Option Store :=
  match s with
  | .memory s => (s.delete? seq).map .memory
  | .rows s => (s.delete? seq).map .rows

end Store

/-- A snapshot: what it shows, unless that is decided by the first read. -/
inductive Snapshot where
  | fixed (v : View) (texts : SeqMap Cell)
  | unread
  deriving DecidableEq

namespace Store

/-- The texts of the stored events; a memory store keeps none. -/
def texts : Store → SeqMap Cell
  | .memory _ => .empty
  | .rows s => s.rows.map Row.json

/-- A snapshot that shows the store as it is now. -/
def current (s : Store) : Snapshot := .fixed s.view s.texts

def openSnapshot (s : Store) : Snapshot :=
  match s with
  | .memory _ => s.current
  | .rows _ => .unread

/-- What a snapshot shows once it has been read. -/
def read (s : Store) : Snapshot → Snapshot
  | .unread => s.current
  | shown => shown

end Store

end EventRelay
