import EventRelay.Filter
import EventRelay.Json
/-!
# The JSON form of filters

A filter is written as an object.  Its fields are `ids`, `authors`, `kinds`, `since`, `until`, `limit`
and `#` with a one-byte tag name; each is read on its own into a `Clause`, and the first field that
cannot be read, in the order of the object, gives the error.  An empty array stands for "no value at
all", whatever the field.  Only then the number of tag fields is checked.
-/

namespace EventRelay

/-- Why a JSON value is no filter. -/
inductive FilterError where
  | unsupportedField (name : String)
  | unindexedTag (name : String)
  | tooManyTags
  | valueSize (size : Nat)
  | notArray (field : String)
  | notUnsigned (field : String)
  | notString
  | notObject
  | id (cause : IdError)
  deriving DecidableEq

namespace Filter

/-- How many tag fields a filter may have. -/
def maxTags : Nat := 3

end Filter

namespace FilterError

def message : FilterError → String
  | .unsupportedField name => "unsupported filter field: " ++ Text.quoted name
  | .unindexedTag name => "unindexed tag filter: " ++ Text.quoted name
  | .tooManyTags => "too many tag filters (max " ++ toString Filter.maxTags ++ ")"
  | .valueSize size => "tag filter value too large: " ++ toString size ++ " bytes"
  | .notArray field => "filter field " ++ Text.quoted field ++ " must be an array"
  | .notUnsigned field => "filter field " ++ Text.quoted field ++ " must be an unsigned integer"
  | .notString => "filter array items must be strings"
  | .notObject => "filter must be a JSON object"
  | .id (.hex cause) => cause.message
  | .id (.size got) =>
    "filter item has wrong size: expected 32 bytes, got " ++ toString got

end FilterError

namespace Filter

/-- The fields a filter may have. -/
inductive Field where
  | ids
  | authors
  | kinds
  | since
  | upTo
  | limit
  | tag (name : UInt8)
  deriving DecidableEq

/-- What one field of a filter asks for. -/
inductive Clause where
  /-- A field that lists no value. -/
  | nothing
  | ids (set : IdSet)
  | authors (set : IdSet)
  | kinds (set : KindSet)
  | tag (name : UInt8) (values : ValueSet)
  | since (time : UInt64)
  | upTo (time : UInt64)
  | limit (count : UInt64)
  deriving DecidableEq

namespace Field

/-- The field of this name. -/
def ofName (name : String) : Except FilterError Field :=
  match name.toList with
  | '#' :: rest =>
    match Utf8.encode (String.ofList rest) with
    | [byte] => .ok (.tag byte)
    | _ => .error (.unindexedTag name)
  | _ =>
    if name = "ids" then .ok .ids
    else if name = "authors" then .ok .authors
    else if name = "kinds" then .ok .kinds
    else if name = "since" then .ok .since
    else if name = "until" then .ok .upTo
    else if name = "limit" then .ok .limit
    else .error (.unsupportedField name)

end Field

namespace Clause

/-- The items of a field that holds an array. -/
def items (field : String) : Json → Except FilterError (List Json)
  | .array items => .ok items
  | _ => .error (.notArray field)

def readUnsigned (field : String) (v : Json) : Except FilterError UInt64 :=
  match v.unsigned? with
  | some n => .ok n
  | none => .error (.notUnsigned field)

/-- An identifier among the items of a field. -/
def readId : Json → Except FilterError Id
  | .string s =>
    match Id.ofHex s with
    | .ok i => .ok i
    | .error e => .error (.id e)
  | _ => .error .notString

/-- A tag value among the items of a field; the empty string is one. -/
def readText : Json → Except FilterError Bytes
  | .string s =>
    let bytes := Utf8.encode s
    if Tag.maxValueSize < bytes.length then .error (.valueSize bytes.length) else .ok bytes
  | _ => .error .notString

/-- A value of a tag of this name. -/
def readTagValue (name : UInt8) (v : Json) : Except FilterError Bytes :=
  if Tag.holdsId name then (readId v).map Id.bytes else readText v

/-- Reads the value of a field. -/
def ofValue (key : String) (v : Json) : Field → Except FilterError Clause
  | .ids => do return .ids (.ofList (← (← items key v).mapM readId))
  | .authors => do return .authors (.ofList (← (← items key v).mapM readId))
  | .kinds => do return .kinds (.ofList (← (← items key v).mapM (readUnsigned key)))
  | .tag name => do return .tag name (.ofList (← (← items key v).mapM (readTagValue name)))
  | .since => do return .since (← readUnsigned key v)
  | .upTo => do return .upTo (← readUnsigned key v)
  | .limit => do return .limit (← readUnsigned key v)

/-- Reads one field of a filter. -/
def ofField (field : String × Json) : Except FilterError Clause := do
  let name ← Field.ofName field.1
  if field.2.isEmptyArray then return .nothing else ofValue field.1 field.2 name

/-- Whether a clause lists values. -/
def isMajor : Clause → Bool
  | .ids _ | .authors _ | .kinds _ | .tag _ _ => true
  | _ => false

end Clause

/-- Puts a tag at its place among the tags; one of the same name gives way. -/
def placeTag (name : UInt8) (values : ValueSet) :
    List (UInt8 × ValueSet) → List (UInt8 × ValueSet)
  | [] => [(name, values)]
  | t :: rest =>
    if name < t.1 then (name, values) :: t :: rest
    else if name = t.1 then (name, values) :: rest
    else t :: placeTag name values rest

/-- The filter that asks for nothing in particular. -/
def unrestricted : Filter := ⟨none, none, none, [], 0, unbounded, unbounded, false, false⟩

/-- A filter that asks for one thing more. -/
def restrict (f : Filter) : Clause → Filter
  | .nothing => { f with neverMatch := true }
  | .ids set => { f with ids := some set }
  | .authors set => { f with authors := some set }
  | .kinds set => { f with kinds := some set }
  | .tag name values => { f with tags := placeTag name values f.tags }
  | .since time => { f with since := time }
  | .upTo time => { f with upTo := time }
  | .limit count => { f with limit := count }

/-- The filter of these clauses.  The index of one field decides a match if no other field lists
values, or if authors and kinds alone do. -/
def ofClauses (maxLimit : UInt64) (clauses : List Clause) : Except FilterError Filter :=
  let f := clauses.foldl restrict unrestricted
  let major := clauses.countP Clause.isMajor
  if maxTags < f.tags.length then .error .tooManyTags
  else .ok { f with
    limit := min f.limit maxLimit
    indexOnly := major ≤ 1 || (major = 2 && f.authors.isSome && f.kinds.isSome) }

/-- Reads a filter; its limit is cut to `maxLimit`. -/
def ofJson (maxLimit : UInt64) : Json → Except FilterError Filter
  | .object fields => do ofClauses maxLimit (← fields.mapM Clause.ofField)
  | _ => .error .notObject

end Filter

namespace FilterGroup

/-- Reads one filter or an array of filters. -/
def ofJson (maxLimit : UInt64) : Json → Except FilterError FilterGroup
  | .array items => do return ofFilters (← items.mapM (Filter.ofJson maxLimit))
  | v => do return ofFilters [← Filter.ofJson maxLimit v]

end FilterGroup

end EventRelay
