import EventRelay.Text.Decimal
/-!
# JSON values

The values of JSON text.  A number keeps the form it was written in, because `1`, `1.0` and `-0` mean
different things to a reader that asks for an unsigned integer.  The fields of an object stand in
ascending order of their names, each name once; `Json.ofFields` builds an object from fields in any
order and keeps the last of those that share a name.
-/

namespace EventRelay

/-- A number as written: an integer, or a mantissa that fits in a word times a power of ten if the text
has a fraction or an exponent. -/
inductive Number where
  | integer (negative : Bool) (magnitude : Nat)
  | decimal (negative : Bool) (mantissa : Nat) (exponent : Int)
  deriving DecidableEq

inductive Json where
  | null
  | bool (b : Bool)
  | number (n : Number)
  | string (s : String)
  | array (items : List Json)
  | object (fields : List (String × Json))
  deriving Inhabited

/-- An integer without a sign, if it fits in a word. -/
def Number.unsigned? : Number → Option UInt64
  | .integer false n => Decimal.word? n
  | _ => none

namespace Json

def ofNat (n : Nat) : Json := .number (.integer false n)

def ofWord (n : UInt64) : Json := ofNat n.toNat

def unsigned? : Json → Option UInt64
  | .number n => n.unsigned?
  | _ => none

def string? : Json → Option String
  | .string s => some s
  | _ => none

def bool? : Json → Option Bool
  | .bool b => some b
  | _ => none

def array? : Json → Option (List Json)
  | .array items => some items
  | _ => none

def object? : Json → Option (List (String × Json))
  | .object fields => some fields
  | _ => none

/-- Whether a value is the empty array. -/
def isEmptyArray : Json → Bool
  | .array [] => true
  | _ => false

/-- Puts a field at its place; a field of the same name gives way. -/
def placeField (name : String) (v : Json) : List (String × Json) → List (String × Json)
  | [] => [(name, v)]
  | (other, w) :: rest =>
    if name < other then (name, v) :: (other, w) :: rest
    else if name = other then (name, v) :: rest
    else (other, w) :: placeField name v rest

/-- The object with these fields; of fields that share a name the last counts. -/
def ofFields (fields : List (String × Json)) : Json :=
  .object (fields.foldl (fun placed f => placeField f.1 f.2 placed) [])

/-- The value of a field. -/
def field? (name : String) : List (String × Json) → Option Json :=
  fun fields => (fields.find? fun f => f.1 = name).map Prod.snd

/-- The value of a field of an object. -/
def get? (v : Json) (name : String) : Option Json := v.object?.bind (field? name)

end Json

end EventRelay
