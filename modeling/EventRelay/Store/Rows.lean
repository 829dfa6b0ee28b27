import EventRelay.Store.Codec
import EventRelay.Event.Wire
import EventRelay.Json.Parser
/-!
# The store in tables

Events as rows of a table with their text, and the six index tables.  An event whose id is stored
already is a duplicate and is not stored again; it uses no seq.  Row numbers are signed words, so a
bound above the largest of them admits every row, as it does here.

Cells can be overwritten behind the store's back.  A row that then cannot be read counts as missing;
the index tables stay as they are.
-/

namespace EventRelay

structure RowStore where
  lastSeq : Nat
  rows : SeqMap Row
  indices : Indices
  deriving DecidableEq

/-- Why an event is not stored. -/
inductive InsertError where
  | event (cause : EventError)
  /-- The row numbers are used up. -/
  | full
  deriving DecidableEq

def InsertError.message : InsertError → String
  | .event cause => "core error: " ++ cause.message
  | .full => "database error"

/-- Why a text is not stored as an event. -/
inductive TextError where
  | notJson
  | insert (cause : InsertError)
  deriving DecidableEq

/-- A fault in the text itself is not described further. -/
def TextError.message : TextError → String
  | .notJson => "json error"
  | .insert cause => cause.message

/-- The event that a text writes. -/
def Event.ofText (text : String) : Except TextError Event :=
  match Json.parse? text with
  | none => .error .notJson
  | some v =>
    match Event.ofJson v with
    | .error e => .error (.insert (.event e))
    | .ok e => .ok e

/-- Why a cell is not overwritten. -/
inductive ConstraintError where
  | null
  | duplicateId
  deriving DecidableEq

namespace RowStore

def empty : RowStore := ⟨0, .empty, .empty⟩

/-- The largest row number. -/
def maxSeq : Nat := 9223372036854775807

/-- Whether an event of this id is stored. -/
def holdsId (s : RowStore) (i : Id) : Bool := s.rows.entries.any fun b => b.2.id = .blob i.bytes

/-- Stores an event with its text under the next seq; no seq for a duplicate. -/
def insert (s : RowStore) (e : Event) (json : String) :
    Except InsertError (Option Nat × RowStore) :=
  match Row.packTags? e.tags with
  | none => .error (.event (.valueSize ((Row.oversized? e.tags).getD 0)))
  | some packed =>
    if s.holdsId e.id then .ok (none, s)
    else if maxSeq ≤ s.lastSeq then .error .full
    else
      let seq := s.lastSeq + 1
      .ok (some seq, {
        lastSeq := seq
        rows := s.rows.insert seq (Row.ofEvent e packed json)
        indices := s.indices.add seq e.indexEntries })

/-- Stores the event that a text writes; the text is kept as it is. -/
def insertText (s : RowStore) (text : String) : Except TextError (Option Nat × RowStore) :=
  match Event.ofText text with
  | .error e => .error e
  | .ok e =>
    match s.insert e text with
    | .error e => .error (.insert e)
    | .ok r => .ok r

/-- Deletes the row of a seq and every index entry of it; `none` if there is no row. -/
def delete? (s : RowStore) (seq : Nat) : Option RowStore :=
  (s.rows.get? seq).map fun _ =>
    { s with
      rows := s.rows.erase seq
      indices := s.indices.removeSeq seq }

def view (s : RowStore) : View := ⟨s.lastSeq, s.rows.map Row.stored, s.indices⟩

/-- The text of the event stored under a seq, as a cell. -/
def json? (s : RowStore) (seq : Nat) : Option Cell := (s.rows.get? seq).map Row.json

/-- The text of the event stored under a seq. -/
def text? (s : RowStore) (seq : Nat) : Option String :=
  match s.json? seq with
  | some (.text text) => some text
  | _ => none

/-- Overwrites a cell; the number of rows changed, and the store after it. -/
def overwrite (s : RowStore) (seq : Nat) (c : Column) (v : Cell) :
    Except ConstraintError (Nat × RowStore) :=
  match s.rows.get? seq with
  | none => .ok (0, s)
  | some r =>
    let v := c.affinity.store v
    if v = .null && !c.nullable then .error .null
    else if c = .id && s.rows.entries.any (fun b => b.1 ≠ seq && b.2.id.isSame v) then .error .duplicateId
    else .ok (1, { s with rows := s.rows.insert seq (r.set c v) })

end RowStore

end EventRelay
