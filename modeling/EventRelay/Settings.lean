import EventRelay.Config
import EventRelay.Settings.Environment
import EventRelay.Settings.Format
/-!
# Settings of the program

Where the store is, and the settings of the engine.  They come from a file, if there is one, with those
of the environment on top; what neither gives has its default.
-/

namespace EventRelay

structure Settings where
  /-- The path of the store. -/
  dbPath : String
  engine : Config
  deriving DecidableEq

/-- Why there are no settings. -/
inductive SettingsError where
  /-- The file is not written in its format. -/
  | notReadable
  /-- A path leads to a place that its list cannot have. -/
  | misplaced
  /-- A value is not one of its setting. -/
  | unfit
  deriving DecidableEq

namespace Settings

/-- Where the store is, unless a setting says otherwise. -/
def defaultDbPath : String := "./kestrel.db"

/-- The value of a section's field, by name in a table and by place in a list. -/
def field? (v : Setting) (name : String) (place : Nat) : Option Setting :=
  match v with
  | .list items => items[place]?
  | v => v.get? name

/-- Whether a value can be a section: a table, or a list that gives the fields in order. -/
def isSection : Setting → Bool
  | .list _ | .table _ => true
  | _ => false

/-- Reads the `logging` section. -/
def readLogging? (v : Setting) (fallback : Bool) : Option Bool :=
  if !isSection v then none
  else match field? v "db_scan_perf" 0 with
    | some w => w.flag?
    | none => some fallback

/-- Reads the settings of the engine. -/
def readEngine? (v : Setting) : Option Config :=
  if !isSection v then none
  else
    let get? (name : String) := field? v name (Config.fieldOrder.idxOf name)
    Config.read?
      (fun name fallback => match get? name with
        | some w => w.word?
        | none => some fallback)
      (fun fallback => match get? "logging" with
        | some w => readLogging? w fallback
        | none => some fallback)

/-- Reads settings from their tree. -/
def ofSetting? (v : Setting) : Option Settings := do
  let dbPath ← match v.get? "db_path" with
    | some w => w.text?
    | none => some defaultDbPath
  let engine ← match v.get? "relay" with
    | some w => readEngine? w
    | none => some .default
  return { dbPath, engine }

/-- A path below a directory; one that begins at the root stays as it is. -/
def join (dir : String) (path : List Char) : String :=
  if path.head? = some '/' then String.ofList path
  else if dir.isEmpty || dir.toList.getLast? = some '/' then dir ++ String.ofList path
  else dir ++ "/" ++ String.ofList path

/-- A path with the home directory in place of `~/` at its beginning. -/
def expandHome (home : Option String) (path : String) : String :=
  match home, path.toList with
  | some home, '~' :: '/' :: rest => join home rest
  | _, _ => path

/-- The settings of a file, if there is one, and of the environment. -/
def load (file : Option (SettingsFormat × String)) (env : List (String × String))
    (home : Option String) : Except SettingsError Settings :=
  let fields := match file with
    | none => some []
    | some (format, text) => format.parse? text
  match fields with
  | none => .error .notReadable
  | some fields =>
    let tree := fields.foldlM (fun (tree : Setting) x => tree.putTop? x.1 x.2) (.table [])
    match tree.bind fun tree => Environment.overlay? tree env with
    | none => .error .misplaced
    | some tree =>
      match ofSetting? tree with
      | none => .error .unfit
      | some s => .ok { s with dbPath := expandHome home s.dbPath }

end Settings

end EventRelay
