import EventRelay.Json.Parser
import EventRelay.Settings.Ini
import EventRelay.Settings.Json5
import EventRelay.Settings.Ron
import EventRelay.Settings.Toml
import EventRelay.Settings.Yaml
/-!
# Formats of settings

The formats in which settings are written in a file, and the extension of a file's name that says which
one it is.  What a file writes has to be a table.
-/

namespace EventRelay

/-- A format in which settings are written. -/
inductive SettingsFormat where
  | toml
  | json
  | yaml
  | ini
  | ron
  | json5
  deriving DecidableEq

namespace SettingsFormat

/-- The extensions with their formats. -/
def extensions : List (String × SettingsFormat) :=
  [("toml", .toml), ("json", .json), ("yaml", .yaml), ("yml", .yaml), ("ini", .ini), ("ron", .ron),
    ("json5", .json5)]

/-- The format of a file by the extension of its name.  What a name begins with is no extension. -/
def ofPath? (path : String) : Option SettingsFormat :=
  let name := (Text.pieces '/' path.toList).getLast?.getD []
  match (Text.pieces '.' name).reverse with
  | [] | [_] | [_, []] => none
  | extension :: _ => (extensions.find? (·.1 = String.ofList extension)).map Prod.snd

example : ofPath? "./a.b.toml" = some .toml ∧ ofPath? ".toml" = none ∧ ofPath? "a.b/toml" = none := by
  decide +kernel

/-- A number as a decimal; one too large for a double is not read in the first place. -/
def decimal (n : Number) : Setting := .decimal (n.double?.getD .notANumber)

mutual

/-- A JSON value as a value of settings. -/
def ofJson : Json → Setting
  | .null => .nothing
  | .bool b => .flag b
  | .number (.integer negative n) =>
    let signed := Integer.signed negative n
    if !(negative && n = 0) && (Decimal.isSignedWord signed || (!negative && n < UInt64.size)) then
      .integer signed
    else decimal (.integer negative n)
  | .number n => decimal n
  | .string s => .text s
  | .array items => .list (ofItems items)
  | .object fields => .table (ofFields fields)

def ofItems : List Json → List Setting
  | [] => []
  | v :: rest => ofJson v :: ofItems rest

def ofFields : List (String × Json) → List (String × Setting)
  | [] => []
  | (name, v) :: rest => (name, ofJson v) :: ofFields rest

end

/-- The value that a text writes. -/
def read? : SettingsFormat → String → Option Setting
  | .toml, s => (Toml.parse? s).map .table
  | .json, s => (Json.parse? s).map ofJson
  | .yaml, s => Yaml.parse? s
  | .ini, s => Ini.parse? s
  | .ron, s => Ron.parse? s
  | .json5, s => Json5.parse? s

/-- The settings that a text writes. -/
def parse? (f : SettingsFormat) (s : String) : Option (List (String × Setting)) :=
  match f.read? s with
  | some (.table fields) => some fields
  | _ => none

end SettingsFormat

end EventRelay
