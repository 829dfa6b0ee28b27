import EventRelay.Event
import EventRelay.Json
/-!
# The wire form of events

An event travels as a JSON object with the fields `id`, `pubkey`, `created_at`, `kind` and `tags`;
other fields are ignored.  Tags are arrays of strings.  The tag `expiration` carries a time, the
last one counts, and text that is no time takes the expiration away.  Other tags whose name is longer
than a byte are not indexed.

`Event.ofJson` reads the wire form and reports the first fault, in the order of the fields above.
`Event.toJson` writes the indexed part back.
-/

namespace EventRelay

/-- Why a JSON value is no event. -/
inductive EventError where
  | notObject
  | missingString (field : String)
  | missingUnsigned (field : String)
  | missingTags
  | tagNotArray
  | tagTooShort
  | tagNotStrings
  /-- A tag value of this many bytes. -/
  | valueSize (size : Nat)
  | id (cause : IdError)
  deriving DecidableEq

namespace EventError

def message : EventError → String
  | .notObject => "invalid event: event must be an object"
  | .missingString field => "invalid event: missing string field " ++ Text.quoted field
  | .missingUnsigned field => "invalid event: missing unsigned field " ++ Text.quoted field
  | .missingTags => "invalid event: missing tags array"
  | .tagNotArray => "invalid event: tag must be an array"
  | .tagTooShort => "invalid event: too few fields in tag"
  | .tagNotStrings => "invalid event: tag fields must be strings"
  | .valueSize size => "invalid event: tag value size out of range: " ++ toString size
  | .id (.hex cause) => cause.message
  | .id (.size got) => "invalid event: expected 32 bytes of hex, got " ++ toString got

end EventError

/-- What one tag of the wire form contributes. -/
inductive WireTag where
  /-- An expiration time, or none if the text is no time. -/
  | expiration (time : Option UInt64)
  | indexed (tag : Tag)
  | skipped
  deriving DecidableEq

namespace WireTag

/-- The bytes of a tag value: an identifier for `e` and `p`, otherwise one to 255 bytes of text. -/
def readValue (name : UInt8) (value : String) : Except EventError Bytes :=
  if Tag.holdsId name then
    match Id.ofHex value with
    | .ok i => .ok i.bytes
    | .error e => .error (.id e)
  else
    let bytes := Utf8.encode value
    if bytes.isEmpty || Tag.maxValueSize < bytes.length then .error (.valueSize bytes.length)
    else .ok bytes

/-- Reads a tag from its first two strings. -/
def ofStrings (name value : String) : Except EventError WireTag :=
  if name = "expiration" then .ok (.expiration (Decimal.readWord? value))
  else
    match Utf8.encode name with
    | [name] =>
      match readValue name value with
      | .ok value => .ok (.indexed ⟨name, value⟩)
      | .error e => .error e
    | _ => .ok .skipped

def ofJson : Json → Except EventError WireTag
  | .array (.string name :: .string value :: _) => ofStrings name value
  | .array (_ :: _ :: _) => .error .tagNotStrings
  | .array _ => .error .tagTooShort
  | _ => .error .tagNotArray

/-- The indexed tags, in order. -/
def tags (ws : List WireTag) : List Tag :=
  ws.filterMap fun
    | .indexed tag => some tag
    | _ => none

/-- The last expiration decides. -/
def expirationOf (ws : List WireTag) : Option UInt64 :=
  ws.foldl (fun before w =>
    match w with
    | .expiration time => time
    | _ => before) none

end WireTag

namespace Event

/-- A field that holds a string. -/
def stringField (fields : List (String × Json)) (name : String) : Except EventError String :=
  match (Json.field? name fields).bind Json.string? with
  | some s => .ok s
  | none => .error (.missingString name)

def unsignedField (fields : List (String × Json)) (name : String) : Except EventError UInt64 :=
  match (Json.field? name fields).bind Json.unsigned? with
  | some n => .ok n
  | none => .error (.missingUnsigned name)

def idField (fields : List (String × Json)) (name : String) : Except EventError Id := do
  match Id.ofHex (← stringField fields name) with
  | .ok i => .ok i
  | .error e => .error (.id e)

/-- Reads the wire form. -/
def ofJson (v : Json) : Except EventError Event := do
  let .object fields := v | .error .notObject
  let id ← idField fields "id"
  let author ← idField fields "pubkey"
  let createdAt ← unsignedField fields "created_at"
  let kind ← unsignedField fields "kind"
  let some (.array raw) := Json.field? "tags" fields | .error .missingTags
  let tags ← raw.mapM WireTag.ofJson
  return ⟨id, author, createdAt, kind, WireTag.expirationOf tags, WireTag.tags tags⟩

/-- The wire form of a tag; bytes that are no text are replaced. -/
def tagToJson (t : Tag) : Json :=
  .array [.string (Char.ofNat t.name.toNat).toString,
    .string (if Tag.holdsId t.name then Hex.toText t.value else Utf8.decodeLossy t.value)]

/-- The wire form of the indexed part, an expiration behind the other tags. -/
def toJson (e : Event) : Json :=
  let expiration := e.expiration.toList.map fun time =>
    Json.array [.string "expiration", .string (toString time.toNat)]
  .object [
    ("created_at", .ofWord e.createdAt),
    ("id", .string e.id.toHex),
    ("kind", .ofWord e.kind),
    ("pubkey", .string e.author.toHex),
    ("tags", .array (e.tags.map tagToJson ++ expiration))]

end Event

end EventRelay
