import EventRelay.CommandLine
import EventRelay.Filter.Grammar
import EventRelay.Follow
import EventRelay.Import
import EventRelay.Listing
import EventRelay.Log.Filter
import EventRelay.Settings
import EventRelay.Store.Location
import EventRelay.Store.Pages
import EventRelay.Store.Schema
/-!
# The program

One run of the program: its arguments say what to do, its settings where the store is, and the command
does its work on the store.  A run is a function of what surrounds it, and all that it leaves behind is
its outcome: what it prints, its log, its exit code and the file of the store.

Things happen in a fixed order, and the first that goes wrong ends the run: reading the arguments,
reading the settings, opening the store, reading the filter or opening the file to import, opening the
store once more for readers.
-/

namespace EventRelay

/-- What stands under a path. -/
inductive Place where
  /-- There is no file, but one can be made. -/
  | free
  /-- No file can be opened or made here. -/
  | closed
  | directory
  | text (s : String)
  | store (s : RowStore)
  /-- A file that is neither text nor a store. -/
  | binary
  deriving DecidableEq

def Place.isFile : Place → Bool
  | .free | .closed | .directory => false
  | _ => true

/-- What surrounds a run. -/
structure Surroundings where
  args : List String
  env : List (String × String)
  home : Option String
  /-- The standard input, if it is text. -/
  stdin : Option String
  look : String → Place
  /-- How the clock answers a slice with this budget, in microseconds. -/
  clock : UInt64 → Clock

/-- What ends a run before its command is done. -/
inductive Failure where
  /-- The settings are not written in the format of their file. -/
  | settingsText
  /-- A setting has an unfit value. -/
  | settingsValue
  | store (path : String)
  | importFile (path : String)
  | unreadable
  | notJson
  | filter (cause : FilterError)
  /-- The store can take no more. -/
  | full
  /-- The store cannot be opened for a reader. -/
  | reader
  /-- The store cannot be opened for the workers. -/
  | workers
  /-- A reader finds an empty store of its own. -/
  | noTables
  deriving DecidableEq

namespace Failure

/-- What the program was doing. -/
def context : Failure → String
  | .settingsText => "failed to read config file"
  | .settingsValue => "failed to deserialise settings"
  | .store path => "failed to open store at " ++ Text.quotedPath path
  | .importFile path => "failed to open " ++ path
  | .unreadable => "failed to read input"
  | .notJson => "filter is not valid JSON"
  | .filter _ => "invalid filter"
  | .full => "failed to store event"
  | .reader => "failed to open reader"
  | .workers => "failed to start workers"
  | .noTables => "database error: no such table: meta"

/-- What was wrong with a filter. -/
def cause? : Failure → Option String
  | .filter cause => some cause.message
  | _ => none

end Failure

/-- A file that a run leaves behind: its path and what stands there. -/
abbrev Left := Option (String × Place)

/-- What a run leaves behind. -/
structure Outcome where
  code : Nat
  out : List String
  log : List LogEntry
  failure : Option Failure
  left : Left
  deriving DecidableEq

/-- What becomes of a run: it is over, or it follows a filter until it is interrupted. -/
inductive Begun where
  | over (o : Outcome)
  /-- Its slices have a budget, in microseconds. -/
  | following (follow : Follow) (budget pollMs : UInt64) (path : String) (store : RowStore)
  deriving DecidableEq

/-- A store and where it is kept. -/
structure OpenStore where
  location : Location
  store : RowStore
  deriving DecidableEq

/-- What is left of an open store once it holds `store`. -/
def OpenStore.leave (s : OpenStore) (store : RowStore) : Left :=
  s.location.file?.map fun path => (path, .store store)

/-- What an import finds to read. -/
inductive Input where
  | whole (text : String)
  /-- What is not text follows. -/
  | part (text : String)
  | missing
  deriving DecidableEq

namespace Program

def version : String := "kestrel 0.1.0"

def help : List String :=
  ["Kestrel event store tools",
   "",
   "Usage: kestrel [--config PATH] import [--file FILE]",
   "       kestrel [--config PATH] scan [--pause US] [--metrics] [--count] FILTER",
   "       kestrel [--config PATH] req [--poll-ms MS] FILTER"]

/-- The exit code of arguments that are not understood. -/
def usageCode : Nat := 2

/-- The exit code of a run that breaks off: nobody can look at the store at intervals of no length, and a
list has only so many places. -/
def brokenCode : Nat := 101

/-- The outcome of a run that has nothing to do with a store. -/
def printing (code : Nat) (out : List String) : Outcome := ⟨code, out, [], none, none⟩

/-- The outcome of a run that a failure ends. -/
def failed (e : Failure) (left : Left) : Outcome := ⟨1, [], [], some e, left⟩

/-- The outcome of a run that breaks off. -/
def broken (left : Left) : Outcome := ⟨brokenCode, [], [], none, left⟩

def stopped : Stop → Outcome
  | .notice .version => printing 0 [version]
  | .notice .help => printing 0 help
  | .usage => printing usageCode []

def withoutSettings : SettingsError → Outcome
  | .notReadable => failed .settingsText none
  | .unfit => failed .settingsValue none
  | .misplaced => broken none

/-- Where the settings may be: in the file named, or in one whose name goes on with the extension of a
format. -/
def settingsPaths (path : String) : List String :=
  path :: match Path.stem? path with
    | some stem => SettingsFormat.extensions.map fun x => stem ++ "." ++ x.1
    | none => []

/-- The file with the settings.  A file of no known format counts as none. -/
def settingsFile (look : String → Place) (path : String) : Option (SettingsFormat × String) :=
  ((settingsPaths path).find? fun p => (look p).isFile).bind fun p =>
    match look p, SettingsFormat.ofPath? p with
    | .text s, some format => some (format, s)
    | _, _ => none

/-- Whether a text counts as an empty store: one byte is not looked at. -/
def isBlank (text : String) : Bool := text.utf8ByteSize ≤ 1

/-- Opens a store; what is left if that fails.  A store that cannot have a journal beside it or must stay
as it is cannot be written, but its file is made. -/
def openStore (look : String → Place) (path : String) : Except Left OpenStore :=
  match Location.ofText? path with
  | none => .error none
  | some l =>
    let opened (tables : Tables) (left : Left) : Except Left OpenStore :=
      if l.isFixed || !l.hasRoom then .error left else .ok ⟨l, .opened tables⟩
    match l.file? with
    | none => .ok ⟨l, .opened .none⟩
    | some file =>
      match look file with
      | .free => if l.makes then opened .none (some (file, .text "")) else .error none
      | .store store => opened store.tables none
      | .text text => if isBlank text then opened .none none else .error none
      | .closed | .directory | .binary => .error none

/-- What a reader of an open store finds: the path of its file.  `failure` says what it was opened for. -/
def readers (s : OpenStore) (failure : Failure) : Except Failure String :=
  if s.location.isAddress then .error failure
  else match s.location.file? with
    | some path => .ok path
    | none => .error .noTables

/-- Reads the text of a filter group. -/
def readFilter (maxLimit : UInt64) (s : String) : Except Failure FilterGroup :=
  match Json.parse? s with
  | none => .error .notJson
  | some v =>
    match FilterGroup.ofJson maxLimit v with
    | .error e => .error (.filter e)
    | .ok g => .ok g

/-- What an import from a file finds.  The file of the store itself, if it was made in this run, has no
line of text. -/
def inputAt (look : String → Place) (location : Location) (path : String) : Input :=
  let isOwn := location.file?.any (Path.same path)
  match look path with
  | .store store => .part store.heading
  | .text text => if isOwn then .part "" else .whole text
  | .free => if isOwn then .part "" else .missing
  | .directory | .binary => .part ""
  | .closed => .missing

/-- What an import finds to read. -/
def input (s : Surroundings) (location : Location) : Option String → Input
  | none =>
    match s.stdin with
    | some text => .whole text
    | none => .part ""
  | some path => inputAt s.look location path

/-- Stores the events of a text. -/
def importWhole (s : OpenStore) (text : String) : Outcome :=
  let i := Import.run s.store text
  { code := if i.stopped then 1 else 0
    out := []
    log := i.log
    failure := if i.stopped then some .full else none
    left := s.leave i.store }

/-- Stores the events of a text that what is no text follows. -/
def importPart (s : OpenStore) (text : String) : Outcome :=
  let i := Import.run s.store text
  { code := 1
    out := []
    log := i.rejectionEntries
    failure := if i.stopped then some .full else some .unreadable
    left := s.leave i.store }

def importFrom (s : OpenStore) (path : String) : Input → Outcome
  | .whole text => importWhole s text
  | .part text => importPart s text
  | .missing => failed (.importFile path) (s.leave s.store)

/-- The settings of the engine for a listing. -/
def listingConfig (c : Config) (pause : Option UInt64) (metrics : Bool) : Config :=
  { c with
    timesliceBudget := pause.getD c.timesliceBudget
    logScans := c.logScans || metrics }

/-- Lists what a group accepts. -/
def list (s : OpenStore) (c : Config) (clock : Clock) (group : FilterGroup) (countOnly : Bool) : Outcome :=
  match readers s .reader with
  | .error e => failed e (s.leave s.store)
  | .ok _ =>
    let l := Listing.run s.store c clock group countOnly
    ⟨0, l.lines, l.log.map LogLine.entry, none, s.leave s.store⟩

/-- The first number of workers of whom no list can be kept. -/
def tooManyWorkers : UInt64 := 1152921504606846976

/-- Begins to follow a group. -/
def follow (s : OpenStore) (c : Config) (group : FilterGroup) (pollMs : UInt64) : Begun :=
  if tooManyWorkers ≤ c.numWorkers then .over (broken (s.leave s.store))
  else match readers s .workers with
  | .error e => .over (failed e (s.leave s.store))
  | .ok path =>
    if pollMs = 0 then .over (broken (s.leave s.store))
    else .following (Follow.start c group) c.timesliceBudget pollMs path s.store

/-- Runs a command on an open store. -/
def command (s : Surroundings) (c : Config) (store : OpenStore) : Command → Begun
  | .importEvents file => .over (importFrom store (file.getD "") (input s store.location file))
  | .scan filter pause metrics countOnly =>
    match readFilter c.maxFilterLimit filter with
    | .error e => .over (failed e (store.leave store.store))
    | .ok group =>
      let c := listingConfig c pause metrics
      .over (list store c (s.clock c.timesliceBudget) group countOnly)
  | .req filter pollMs =>
    match readFilter c.maxFilterLimit filter with
    | .error e => .over (failed e (store.leave store.store))
    | .ok group => follow store c group pollMs

/-- The settings of a run. -/
def settings (s : Surroundings) (invocation : Invocation) : Except SettingsError Settings :=
  Settings.load (settingsFile s.look invocation.config) s.env s.home

/-- Runs the program with its whole log, up to where it follows a filter. -/
def start (s : Surroundings) : Begun :=
  match CommandLine.read s.args with
  | .error stop => .over (stopped stop)
  | .ok invocation =>
    match settings s invocation with
    | .error e => .over (withoutSettings e)
    | .ok settings =>
      match openStore s.look settings.dbPath with
      | .error left => .over (failed (.store settings.dbPath) left)
      | .ok store => command s settings.engine store invocation.command

/-- Runs the program, up to where it follows a filter; of its log, the lines that are wanted are left. -/
def run (s : Surroundings) : Begun :=
  match start s with
  | .over o => .over { o with log := o.log.filter (LogFilter.ofEnvironment s.env).admits }
  | b => b

end Program

end EventRelay
