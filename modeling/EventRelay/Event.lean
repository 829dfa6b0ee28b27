import EventRelay.Id
/-!
# Events

What a relay indexes of an event: who wrote it, when, of which kind, and its tags.  Only tags with a
one-byte name are indexed.  The values of the tags `e` and `p` are identifiers, all other values are
the bytes of a string.
-/

namespace EventRelay

/-- An indexed tag: a one-byte name and the bytes of a value. -/
structure Tag where
  name : UInt8
  value : Bytes
  deriving DecidableEq

namespace Tag

/-- Whether values of tags of this name are identifiers, written in hexadecimal. -/
def holdsId (name : UInt8) : Bool := name = 'e'.toUInt8 || name = 'p'.toUInt8

/-- The longest tag value, in bytes. -/
def maxValueSize : Nat := 255

end Tag

structure Event where
  id : Id
  author : Id
  createdAt : UInt64
  kind : UInt64
  expiration : Option UInt64
  tags : List Tag
  deriving DecidableEq

namespace Event

/-- The values of the tags of this name, in order. -/
def tagValues (e : Event) (name : UInt8) : List Bytes :=
  (e.tags.filter fun t => t.name = name).map Tag.value

theorem mem_tagValues {e : Event} {name : UInt8} {v : Bytes} :
    v ∈ e.tagValues name ↔ ⟨name, v⟩ ∈ e.tags := by
  simp only [tagValues, List.mem_map, List.mem_filter, decide_eq_true_eq]
  constructor
  · rintro ⟨t, ⟨ht, rfl⟩, rfl⟩
    exact ht
  · intro h
    exact ⟨_, ⟨h, rfl⟩, rfl⟩

end Event

end EventRelay
