import EventRelay.Json
/-!
# Writing JSON text

Compact text: no blanks, fields in the order of the object.  Characters stand for themselves except
the quote, the backslash and the controls.
-/

namespace EventRelay.Json

/-- A character inside a string. -/
def escape (c : Char) : List Char :=
  if c = '"' then ['\\', '"']
  else if c = '\\' then ['\\', '\\']
  else if c = '\x08' then ['\\', 'b']
  else if c = '\x0c' then ['\\', 'f']
  else if c = '\n' then ['\\', 'n']
  else if c = '\r' then ['\\', 'r']
  else if c = '\t' then ['\\', 't']
  else if c.toNat < 0x20 then
    ['\\', 'u', '0', '0', Nat.digitChar (c.toNat / 16), Nat.digitChar (c.toNat % 16)]
  else [c]

def renderString (s : String) : String :=
  String.ofList ('"' :: s.toList.flatMap escape ++ ['"'])

def renderNumber : Number → String
  | .integer negative n => (if negative then "-" else "") ++ toString n
  | .decimal negative m e => (if negative then "-" else "") ++ toString m ++ "e" ++ toString e

mutual

/-- The compact text of a value. -/
def render : Json → String
  | .null => "null"
  | .bool true => "true"
  | .bool false => "false"
  | .number n => renderNumber n
  | .string s => renderString s
  | .array items => "[" ++ ",".intercalate (renderItems items) ++ "]"
  | .object fields => "\x7b" ++ ",".intercalate (renderFields fields) ++ "\x7d"

def renderItems : List Json → List String
  | [] => []
  | v :: rest => render v :: renderItems rest

def renderFields : List (String × Json) → List String
  | [] => []
  | (name, v) :: rest => (renderString name ++ ":" ++ render v) :: renderFields rest

end

end EventRelay.Json
