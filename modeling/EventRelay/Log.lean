import EventRelay.Store.View
import EventRelay.Subscription
import EventRelay.Text.Quoted
/-!
# Log lines

What the engine reports while it works: rows that cannot be read, finished scans and finished
replays.  A line carries its values; `LogLine.entry` names them and says who reports.
-/

namespace EventRelay

inductive LogLevel where
  | warn
  | info
  | debug
  deriving DecidableEq

def LogLevel.name : LogLevel → String
  | .warn => "WARN"
  | .info => "INFO"
  | .debug => "DEBUG"

/-- A line of a log. -/
structure LogEntry where
  level : LogLevel
  /-- The part of the program that reports. -/
  target : String
  message : String
  /-- The values of the line, by name. -/
  fields : List (String × String)
  /-- The names of values that are measured; they are left out of the line. -/
  times : List String
  deriving DecidableEq

namespace LogEntry

/-- The names of all values. -/
def names (e : LogEntry) : List String := "message" :: e.fields.map Prod.fst ++ e.times

def text (e : LogEntry) : String :=
  " ".intercalate (e.level.name :: e.message :: e.fields.map fun f => f.1 ++ "=" ++ f.2)

end LogEntry

/-- What is reported of a finished scan. -/
structure ScanReport where
  sub : Recipient
  /-- The number of its filter in the group. -/
  filter : Nat
  index : IndexKind
  indexOnly : Bool
  /-- How often it was paused. -/
  pauses : Nat
  found : Nat
  work : Nat
  deriving DecidableEq

/-- What is reported of a finished replay. -/
structure ReplayReport where
  sub : Recipient
  totalWork : Nat
  sent : Nat
  deriving DecidableEq

inductive LogLine where
  | corruptRow (row : CorruptRow)
  | scanComplete (level : LogLevel) (report : ScanReport)
  | replayComplete (level : LogLevel) (report : ReplayReport)
  deriving DecidableEq

namespace LogLine

def level : LogLine → LogLevel
  | .corruptRow _ => .warn
  | .scanComplete level _ => level
  | .replayComplete level _ => level

def message : LogLine → String
  | .corruptRow _ => "skipping corrupt event row"
  | .scanComplete _ _ => "filter scan complete"
  | .replayComplete _ _ => "query complete"

/-- The values of a line, by name. -/
def fields : LogLine → List (String × String)
  | .corruptRow row => [("seq", toString row.seq), ("reason", row.why.message)]
  | .scanComplete _ r => [("conn", toString r.sub.conn), ("sub", r.sub.subId.text),
      ("filter", toString r.filter), ("scan", Text.quoted r.index.name),
      ("index_only", toString r.indexOnly), ("save_restores", toString r.pauses),
      ("recs_found", toString r.found), ("work", toString r.work)]
  | .replayComplete _ r => [("conn", toString r.sub.conn), ("sub", r.sub.subId.text),
      ("total_work", toString r.totalWork), ("recs_sent", toString r.sent)]

/-- The part of the program that reports a line. -/
def target : LogLine → String
  | .corruptRow _ => "kestrel_store_sqlite::store"
  | .scanComplete _ _ | .replayComplete _ _ => "kestrel_query::query"

/-- The names of the times that a line has. -/
def times : LogLine → List String
  | .corruptRow _ => []
  | .scanComplete _ _ => ["time_us"]
  | .replayComplete _ _ => ["total_time_us"]

def entry (l : LogLine) : LogEntry := ⟨l.level, l.target, l.message, l.fields, l.times⟩

end LogLine

end EventRelay
