import EventRelay.Settings.Path
import EventRelay.Text.Integer
/-!
# Settings in environment variables

A variable whose name begins with `KESTREL_`, in letters of any size, is a setting: the rest of the name
is its path, with two underscores between the names.  The value is a flag, an integer, a decimal or a
text, whichever it can be read as first.
-/

namespace EventRelay.Environment

/-- What the names of settings begin with, in small letters. -/
def mark : String := "kestrel_"

/-- The value that the text of a variable writes. -/
def valueOf (s : String) : Setting :=
  if Setting.small s = "true" then .flag true
  else if Setting.small s = "false" then .flag false
  else match Integer.read? 10 s.toList with
    | some n => .integer n
    | none => match Double.read? s with
      | some x => .decimal x
      | none => .text s

/-- Points in place of two underscores. -/
def points : List Char → List Char
  | '_' :: '_' :: rest => '.' :: points rest
  | c :: rest => c :: points rest
  | [] => []

/-- The name of the setting that a variable gives, `none` if it gives none. -/
def name? (key : String) : Option String :=
  let cs := (Setting.small key).toList
  if mark.toList.isPrefixOf cs then some (String.ofList (points (cs.drop mark.toList.length))) else none

/-- Settings with those of the environment on top. -/
def overlay? (settings : Setting) (env : List (String × String)) : Option Setting :=
  env.foldlM (fun settings x =>
    match name? x.1 with
    | some name => settings.putTop? name (valueOf x.2)
    | none => some settings) settings

example : name? "KESTREL_RELAY__NUM_WORKERS" = some "relay.num_workers" ∧ name? "KESTRELRELAY" = none := by
  decide +kernel

end EventRelay.Environment
