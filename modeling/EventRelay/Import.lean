import EventRelay.Log
import EventRelay.Store.Rows
import EventRelay.Text.Lines
/-!
# Imports

An import stores the events that a text writes, one to a line and in the order of the lines.  White
space around a line does not count, and a blank line is passed over.  Every other line is counted once:
its event is added; or it is a duplicate, because an event of its id is stored already; or the line is
rejected, because it writes no event that can be stored.  Only lines that are added change the store.
-/

namespace EventRelay

/-- A line that is not stored, and why. -/
structure Rejection where
  /-- The number of the line; the first is 1, and blank lines count. -/
  line : Nat
  cause : TextError
  deriving DecidableEq

/-- An import, as far as it has come. -/
structure Import where
  store : RowStore
  /-- The lines read so far. -/
  lines : Nat
  added : Nat
  duplicates : Nat
  /-- The lines rejected so far, the last first. -/
  rejections : List Rejection
  /-- The store can take no more, and what follows is not read. -/
  stopped : Bool
  deriving DecidableEq

namespace Import

def start (store : RowStore) : Import := ⟨store, 0, 0, 0, [], false⟩

def rejected (i : Import) : Nat := i.rejections.length

/-- Reads the text of a line that is not blank. -/
def feedText (i : Import) (text : String) : Import :=
  match i.store.insertText text with
  | .ok (some _, store) => { i with store, added := i.added + 1 }
  | .ok (none, _) => { i with duplicates := i.duplicates + 1 }
  | .error (.insert .full) => { i with stopped := true }
  | .error cause => { i with rejections := ⟨i.lines, cause⟩ :: i.rejections }

/-- Reads one more line. -/
def feed (i : Import) (line : String) : Import :=
  if i.stopped then i
  else
    let i := { i with lines := i.lines + 1 }
    let text := Text.trim line
    if text.isEmpty then i else i.feedText text

/-- Imports a text. -/
def run (store : RowStore) (text : String) : Import := (Text.lines text).foldl feed (start store)

/-- The part of the program that reports. -/
def target : String := "kestrel::import"

/-- What the log says of a rejected line. -/
def rejectionEntry (r : Rejection) : LogEntry :=
  ⟨.warn, target, "event rejected", [("line", toString r.line), ("error", r.cause.message)], []⟩

/-- What the log says of the rejected lines. -/
def rejectionEntries (i : Import) : List LogEntry := i.rejections.reverse.map rejectionEntry

/-- The numbers of an import that has come to the end. -/
def numbersEntry (i : Import) : LogEntry :=
  ⟨.info, target, "import complete", [("added", toString i.added),
    ("duplicates", toString i.duplicates), ("rejected", toString i.rejected)], []⟩

/-- What the log says of an import: its rejected lines, and its numbers if it has come to the end. -/
def log (i : Import) : List LogEntry :=
  i.rejectionEntries ++ if i.stopped then [] else [i.numbersEntry]

/-! ### What an import keeps -/

theorem feed_stopped {i : Import} (h : i.stopped) (line : String) : i.feed line = i := if_pos h

end Import

end EventRelay
