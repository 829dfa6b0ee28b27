import EventRelay.Store.Cell
import EventRelay.Store.View
/-!
# Rows of the event table

An event is stored as one row: words as signed words of the same bits, a missing expiration as null,
and the tags packed into one byte string, each as its name, the size of its value and the value.
Reading a row checks the types of its cells first, then the sizes of id and author, then the tags.
-/

namespace EventRelay

/-- A row of the event table. -/
structure Row where
  id : Cell
  author : Cell
  createdAt : Cell
  kind : Cell
  expiration : Cell
  tags : Cell
  json : Cell
  deriving DecidableEq

namespace Row

/-- A word as a signed word of the same bits. -/
def signed (n : UInt64) : Int64 := n.toInt64

def unsigned (n : Int64) : UInt64 := n.toUInt64

/-- Packs tags; `none` if some value has more than 255 bytes. -/
def packTags? : List Tag → Option Bytes
  | [] => some []
  | t :: rest =>
    if t.value.length ≤ Tag.maxValueSize then
      (packTags? rest).map fun packed =>
        t.name :: UInt8.ofNat t.value.length :: (t.value ++ packed)
    else none

/-- The size of the first value that is too long to be packed. -/
def oversized? (tags : List Tag) : Option Nat :=
  (tags.find? fun t => Tag.maxValueSize < t.value.length).map fun t => t.value.length

/-- Reads packed tags. -/
def unpackTags : Bytes → Except Corruption (List Tag)
  | [] => .ok []
  | [_] => .error .trailingBytes
  | name :: size :: rest =>
    if rest.length < size.toNat then .error .truncatedValue
    else
      match unpackTags (rest.drop size.toNat) with
      | .ok tags => .ok (⟨name, rest.take size.toNat⟩ :: tags)
      | .error e => .error e
termination_by s => s.length
decreasing_by
  exact Nat.lt_of_le_of_lt (List.length_drop ▸ Nat.sub_le _ _)
    (Nat.lt_succ_of_lt (Nat.lt_succ_self _))

/-- The row of an event whose packed tags are given. -/
def ofEvent (e : Event) (packed : Bytes) (json : String) : Row where
  id := .blob e.id.bytes
  author := .blob e.author.bytes
  createdAt := .integer (signed e.createdAt)
  kind := .integer (signed e.kind)
  expiration := match e.expiration with
    | some time => .integer (signed time)
    | none => .null
  tags := .blob packed
  json := .text json

/-- The expiration that a cell stores. -/
def expiration? : Cell → Except Corruption (Option UInt64)
  | .null => .ok none
  | .integer n => .ok (some (unsigned n))
  | _ => .error .wrongType

/-- Reads a row. -/
def decode (r : Row) : Except Corruption Event :=
  match r.id, r.author, r.createdAt, r.kind, expiration? r.expiration, r.tags with
  | .blob id, .blob author, .integer createdAt, .integer kind, .ok expiration, .blob packed =>
    match Id.ofBytes? id with
    | none => .error .idSize
    | some id =>
      match Id.ofBytes? author with
      | none => .error .authorSize
      | some author =>
        match unpackTags packed with
        | .error e => .error e
        | .ok tags => .ok ⟨id, author, unsigned createdAt, unsigned kind, expiration, tags⟩
  | _, _, _, _, _, _ => .error .wrongType

/-- What a reader finds in a row. -/
def stored (r : Row) : Stored :=
  match r.decode with
  | .ok e => .event e
  | .error why => .corrupt why

end Row

/-- A column of the event table that can be overwritten. -/
inductive Column where
  | id
  | author
  | createdAt
  | kind
  | expiration
  | tags
  | json
  deriving DecidableEq

namespace Column

def affinity : Column → Affinity
  | .id | .author | .tags => .bytes
  | .createdAt | .kind | .expiration => .integer
  | .json => .text

/-- Whether a column may hold no value. -/
def nullable : Column → Bool
  | .expiration => true
  | _ => false

end Column

/-- A row with one cell overwritten. -/
def Row.set (r : Row) (c : Column) (v : Cell) : Row :=
  match c with
  | .id => { r with id := v }
  | .author => { r with author := v }
  | .createdAt => { r with createdAt := v }
  | .kind => { r with kind := v }
  | .expiration => { r with expiration := v }
  | .tags => { r with tags := v }
  | .json => { r with json := v }

end EventRelay
