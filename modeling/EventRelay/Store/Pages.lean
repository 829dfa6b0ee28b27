import EventRelay.Store.Rows
/-!
# The size of a store in its file

The file of a store consists of pages.  Two hold what describes the tables, one the events, one the
order of their ids and one each of the six index tables, and a table that does not fit in a page takes
more.

A row is kept as a record: for each cell a number that says its type and its size, then the cells.
Numbers take one byte for every seven of their binary digits.
-/

namespace EventRelay

/-- The bytes that a number takes. -/
def numberRoom (n : Nat) : Nat := 1 + n.log2 / 7

/-- Sizes taken together. -/
def totalRoom (sizes : List Nat) : Nat := sizes.foldl (· + ·) 0

namespace Cell

/-- The bytes that an integer takes. -/
def integerRoom (n : Int) : Nat :=
  if n = 0 ∨ n = 1 then 0
  else
    let fits (bytes : Nat) : Bool :=
      let half : Int := Nat.pow 2 (8 * bytes - 1)
      n < half && -half ≤ n
    ([1, 2, 3, 4, 6].find? fits).getD 8

/-- The bytes that a cell takes. -/
def room : Cell → Nat
  | .null => 0
  | .integer n => integerRoom n.toInt
  | .real _ => 8
  | .text s => s.utf8ByteSize
  | .blob s => s.length

/-- The number that says the type and the size of a cell; of an integer it has one byte in any case. -/
def typeNumber : Cell → Nat
  | .null | .integer _ | .real _ => 0
  | .text s => 13 + 2 * s.utf8ByteSize
  | .blob s => 12 + 2 * s.length

/-- The bytes of the record of some cells. -/
def recordRoom (cells : List Cell) : Nat :=
  1 + totalRoom (cells.map fun c => numberRoom c.typeNumber + c.room)

end Cell

namespace RowStore

/-- The bytes of a page for the rows of a table, each with two bytes that say where it is. -/
def pageRoom : Nat := 4088

/-- The bytes of a page that a record may take. -/
def maxRecord : Nat := 4061

/-- A seq in a cell. -/
def seqCell (seq : Nat) : Cell := .integer (Int64.ofNat seq)

/-- The record of an event; its seq stands outside. -/
def eventRecord (r : Row) : Nat :=
  Cell.recordRoom [.null, r.id, r.author, r.createdAt, r.kind, r.expiration, r.tags, r.json]

/-- The bytes of a table whose records have these sizes. -/
def tableRoom (records : List Nat) : Nat := totalRoom (records.map fun n => 2 + numberRoom n + n)

/-- Whether every table fits in a page. -/
def isSmall (s : RowStore) : Bool :=
  let rows := s.rows.entries
  let events := rows.map fun b => eventRecord b.2
  let ids := rows.map fun b => Cell.recordRoom [b.2.id, seqCell b.1]
  events.all (· ≤ maxRecord)
    && tableRoom events + totalRoom (rows.map fun b => numberRoom b.1) ≤ pageRoom
    && tableRoom ids ≤ pageRoom
    && IndexKind.all.all fun k =>
      tableRoom ((s.indices.get k).toList.map fun e =>
        Cell.recordRoom [.blob e.key, seqCell e.seq]) ≤ pageRoom

/-- What can be read as text of the file of a store.  It begins with its number of pages, and ten is the
code of a line feed, so that the file of a small store begins with a line, which is no event.  No other
line is text. -/
def heading (s : RowStore) : String := if s.isSmall then "\x00\n" else ""

end RowStore

end EventRelay
