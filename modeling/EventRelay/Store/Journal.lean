import EventRelay.Json.Printer
import EventRelay.Store.Rows
import EventRelay.Text.Lines
/-!
# Stores in files

A store in a file is a journal of JSON lines: a heading with the last seq, then every event that is
stored, as its seq and its text in the order of the seqs.  Reading puts every event back under its seq.
-/

namespace EventRelay.Journal

/-- What the heading of a journal names. -/
def mark : String := "kestrel event store"

def heading (lastSeq : Nat) : Json := .array [.string mark, .ofNat lastSeq]

def row (seq : Nat) (text : String) : Json := .array [.ofNat seq, .string text]

/-- The journal of a store. -/
def write (s : RowStore) : String :=
  let rows := s.rows.entries.reverse.filterMap fun b => (s.text? b.1).map (row b.1)
  String.join ((heading s.lastSeq :: rows).map fun v => v.render ++ "\n")

/-- Puts an event back under its seq. -/
def restore? (s : RowStore) (line : String) : Option RowStore :=
  match Json.parse? line with
  | some (.array [.number (.integer false seq), .string text]) =>
    match ({ s with lastSeq := seq - 1 } : RowStore).insertText text with
    | .ok (some _, s) => some s
    | _ => none
  | _ => none

/-- The store that a journal describes; `none` if this is no journal. -/
def read? (s : String) : Option RowStore :=
  match Text.lines s with
  | [] => none
  | first :: rest =>
    match Json.parse? first with
    | some (.array [.string name, .number (.integer false lastSeq)]) =>
      if name = mark then
        (rest.foldlM restore? RowStore.empty).map fun s => { s with lastSeq }
      else none
    | _ => none

end EventRelay.Journal
