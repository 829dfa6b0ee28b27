import EventRelay.Event
import EventRelay.OrderedSet
/-!
# Index keys

Six indices list the events of a store by one property each.  An index key is the property's bytes,
its *stem*, followed by the time of the event in eight bytes, so that the entries of one stem stand
in the order of time.

Main statements: `IndexKey.time?_make` (the time is read back from a key) and
`IndexKey.ownedBy_make_iff` (a key belongs to the stem it was built from and to no other).
-/

namespace EventRelay

open Std

/-- The property that an index lists events by. -/
inductive IndexKind where
  | id
  | author
  | kind
  | authorKind
  | tag
  | createdAt
  deriving DecidableEq

namespace IndexKind

def name : IndexKind → String
  | .id => "Id"
  | .author => "Author"
  | .kind => "Kind"
  | .authorKind => "AuthorKind"
  | .tag => "Tag"
  | .createdAt => "CreatedAt"

def all : List IndexKind := [.id, .author, .kind, .authorKind, .tag, .createdAt]

end IndexKind

namespace Stem

def ofId (i : Id) : Bytes := i.bytes

def ofAuthor (a : Id) : Bytes := a.bytes

def ofKind (k : UInt64) : Bytes := Bytes.bigEndian k

def ofAuthorKind (a : Id) (k : UInt64) : Bytes := a.bytes ++ Bytes.bigEndian k

def ofTag (name : UInt8) (value : Bytes) : Bytes := name :: value

end Stem

namespace IndexKey

/-- The key of a stem at a time. -/
def make (stem : Bytes) (time : UInt64) : Bytes := stem ++ Bytes.bigEndian time

/-- The time in the last eight bytes of a key. -/
def time? (key : Bytes) : Option UInt64 :=
  if 8 ≤ key.length then some (Bytes.ofBigEndian (key.drop (key.length - 8))) else none

@[simp] theorem time?_make (stem : Bytes) (time : UInt64) : time? (make stem time) = some time := by
  simp [time?, make]

/-- Whether a key is one of this stem. -/
def ownedBy (stem key : Bytes) : Bool :=
  key.length = stem.length + 8 && key.take stem.length = stem

theorem ownedBy_make_iff {stem other : Bytes} {time : UInt64} :
    ownedBy stem (make other time) = true ↔ stem = other := by
  simp only [ownedBy, Bool.and_eq_true, decide_eq_true_eq]
  simp only [make, List.length_append, Bytes.length_bigEndian, Nat.add_right_cancel_iff]
  constructor
  · rintro ⟨hlen, h⟩
    rw [List.take_append_of_le_length (by omega), ← hlen, List.take_length] at h
    exact h.symm
  · rintro rfl
    simp

end IndexKey

namespace Event

/-- The entries of an event: one in each index but the tag index, where every tag has one. -/
def indexEntries (e : Event) : List (IndexKind × Bytes) :=
  [(.id, IndexKey.make (Stem.ofId e.id) e.createdAt),
   (.author, IndexKey.make (Stem.ofAuthor e.author) e.createdAt),
   (.kind, IndexKey.make (Stem.ofKind e.kind) e.createdAt),
   (.authorKind, IndexKey.make (Stem.ofAuthorKind e.author e.kind) e.createdAt),
   (.createdAt, IndexKey.make [] e.createdAt)] ++
  e.tags.map fun t => (.tag, IndexKey.make (Stem.ofTag t.name t.value) e.createdAt)

end Event

end EventRelay
