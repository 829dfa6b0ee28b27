import EventRelay.Json
/-!
# Settings of the engine

Limits and budgets of the query engine, with their defaults, and their JSON form: missing fields take
the default, unknown ones are ignored, a value of the wrong type is refused.
-/

namespace EventRelay

structure Config where
  /-- The largest limit a filter may have. -/
  maxFilterLimit : UInt64
  maxSubsPerConnection : UInt64
  /-- The time one turn of a replay may take, in microseconds. -/
  timesliceBudget : UInt64
  numWorkers : UInt64
  /-- Fewer pairs of author and kind than this are searched pair by pair. -/
  authorKindCap : UInt64
  /-- Report finished scans at the level of information rather than debugging. -/
  logScans : Bool
  deriving DecidableEq

namespace Config

def default : Config := ⟨500, 20, 10000, 3, 1000, false⟩

instance : Inhabited Config := ⟨default⟩

/-- The value of a field, the default if it is missing; the outer option is lost if it is unfit. -/
def fieldOr {α : Type} (fields : List (String × Json)) (name : String) (read : Json → Option α)
    (fallback : α) : Option α :=
  match Json.field? name fields with
  | some v => read v
  | none => some fallback

/-- The `logging` section. -/
def readLogging? : Json → Option Bool
  | .object fields => fieldOr fields "db_scan_perf" Json.bool? default.logScans
  | .array [] => some default.logScans
  | .array [.bool b] => some b
  | _ => none

/-- Reads the settings, given how to read a word of some name and how to read the flag of the `logging`
section; each gets the default. -/
def read? (word : String → UInt64 → Option UInt64) (logScans : Bool → Option Bool) : Option Config := do
  return {
    maxFilterLimit := ← word "max_filter_limit" default.maxFilterLimit
    maxSubsPerConnection := ← word "max_subs_per_connection" default.maxSubsPerConnection
    timesliceBudget := ← word "query_timeslice_budget_us" default.timesliceBudget
    numWorkers := ← word "num_workers" default.numWorkers
    authorKindCap := ← word "author_kind_cap" default.authorKindCap
    logScans := ← logScans default.logScans }

/-- Reads the settings from the fields of an object. -/
def ofFields? (fields : List (String × Json)) : Option Config :=
  read? (fun name => fieldOr fields name Json.unsigned?) (fieldOr fields "logging" readLogging?)

/-- The fields in the order in which an array gives them. -/
def fieldOrder : List String :=
  ["max_filter_limit", "max_subs_per_connection", "query_timeslice_budget_us", "num_workers",
   "author_kind_cap", "logging"]

/-- Reads the settings.  An array gives the first few fields in order. -/
def ofJson? : Json → Option Config
  | .object fields => ofFields? fields
  | .array items => if items.length ≤ fieldOrder.length then ofFields? (fieldOrder.zip items) else none
  | _ => none

end Config

end EventRelay
