import EventRelay.Json.Number
import EventRelay.Store.Numeral
import EventRelay.Bytes
/-!
# Cells of a table

A cell of a relational table holds a value of any type, whatever the type of its column.  The
column's *affinity* says which values change their type when they are stored: a column of integers
turns text and numbers that denote an integer into one, a column of text turns numbers into text, a
column of bytes leaves all as it is.
-/

namespace EventRelay

/-- A value in a table. -/
inductive Cell where
  | null
  | integer (n : Int64)
  | real (x : Double)
  | text (s : String)
  | blob (s : Bytes)
  deriving DecidableEq

inductive Affinity where
  | integer
  | text
  | bytes
  deriving DecidableEq

namespace Cell

/-- A number as a signed word, if it fits. -/
def int64? (n : Int) : Option Int64 :=
  if Decimal.isSignedWord n then some (Int64.ofInt n) else none

/-- A number in a cell: an integer if it was written as one and fits in a word.  The integer zero has no
sign. -/
def ofNumber (n : Number) : Option Cell :=
  let real := n.double?.map .real
  match n with
  | .integer negative m =>
    if negative && m = 0 then real
    else match int64? (if negative then -m else m) with
      | some i => some (.integer i)
      | none => real
  | .decimal _ _ _ => real

/-- A real number as an integer, if it is one strictly between the least signed word and the first
number above them all. -/
def integral? : Double → Option Int64
  | .finite negative x =>
    if x.isWhole ∧ x.floor < Binary.twos 63 then
      some (Int64.ofInt (if negative then -(x.floor : Int) else x.floor))
    else none
  | _ => none

/-- A real number, as an integer if it is one. -/
def ofReal (x : Double) : Cell :=
  match integral? x with
  | some i => .integer i
  | none => .real x

/-- The number that a text denotes, as an integer if it is one. -/
def ofParts (p : Numeral.Parts) : Cell :=
  match p.integer?.bind int64? with
  | some i => .integer i
  | none => ofReal p.real

/-- The sign and the size of the number in a cell. -/
def number? : Cell → Option (Bool × Binary)
  | .integer n => some (n < 0, .ofNat .extended n.toInt.natAbs)
  | .real (.finite negative x) => some (negative && x.units != 0, x.reround .extended)
  | _ => none

/-- Whether two cells hold the same value: numbers by size, whether integer or real; else values of the
same type. -/
def isSame (a b : Cell) : Bool :=
  match a.number?, b.number? with
  | some x, some y => x = y
  | none, none => a = b
  | _, _ => false

end Cell

/-- What a column of this affinity stores of a value. -/
def Affinity.store : Affinity → Cell → Cell
  | .integer, .text s =>
    match Numeral.parts? s with
    | some p => .ofParts p
    | none => .text s
  | .integer, .real x => .ofReal x
  | .text, .integer n => .text (toString n.toInt)
  | .text, .real x => .text (Numeral.text x)
  | _, c => c

end EventRelay
