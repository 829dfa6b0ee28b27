import EventRelay.Index.Table
import EventRelay.SeqMap
/-!
# Views of a store

A view is what a reader sees of a store at one moment: the last seq given out, what is stored under
each seq, and the six index tables.  A stored row may be unreadable; it then reads as missing, and
the reader reports it.

Reads can fail, each with an error of its own.  `Faults` holds the failures to come, method by method,
as plain data: each call takes the first outcome planned for its method, and a walk that is to fail first
passes a given number of items.
-/

namespace EventRelay

/-- Why a stored row cannot be read. -/
inductive Corruption where
  | wrongType
  | idSize
  | authorSize
  | truncatedValue
  | trailingBytes
  deriving DecidableEq

def Corruption.message : Corruption → String
  | .wrongType => "column has the wrong type"
  | .idSize => "id is not 32 bytes"
  | .authorSize => "author is not 32 bytes"
  | .truncatedValue => "truncated tag value"
  | .trailingBytes => "trailing tag bytes"

/-- What is stored under a seq. -/
inductive Stored where
  | event (e : Event)
  | corrupt (why : Corruption)
  deriving DecidableEq

/-- A row that could not be read. -/
structure CorruptRow where
  seq : Nat
  why : Corruption
  deriving DecidableEq

namespace Stored

def event? : Stored → Option Event
  | .event e => some e
  | .corrupt _ => none

/-- The report that reading what is stored under `seq` makes. -/
def report (seq : Nat) : Stored → List CorruptRow
  | .event _ => []
  | .corrupt why => [⟨seq, why⟩]

end Stored

/-- What a reader sees of a store at one moment. -/
structure View where
  latestSeq : Nat
  rows : SeqMap Stored
  indices : Indices
  deriving DecidableEq

namespace View

/-- The event stored under a seq, if it can be read. -/
def event? (v : View) (seq : Nat) : Option Event := (v.rows.get? seq).bind Stored.event?

/-- The readable events above a seq, in ascending order. -/
def eventsAfter (v : View) (seq : Nat) : List (Nat × Event) :=
  (v.rows.after seq).filterMap fun b => b.2.event?.map fun e => (b.1, e)

/-- The entries of an index at or below a key and a bound on the seq, the last first. -/
def back (v : View) (k : IndexKind) (key : Bytes) (bound : Option Nat) : List Entry :=
  (v.indices.get k).back key bound

end View

/-! ### Failures -/

/-- The ways to read a store. -/
inductive ReadMethod where
  | snapshot
  | latestSeq
  | event
  | scanBack
  | eventsAfter
  deriving DecidableEq

/-- The error of a read that failed.  It is the store's own, and only handed on: a store may fail each
read with another. -/
structure ReadError where
  message : String
  deriving DecidableEq

/-- How a call fails: with this error, a walk after passing so many items. -/
structure Fault where
  visits : Nat
  error : ReadError
  deriving DecidableEq

/-- The outcomes of the calls to come of one method, in order: `none` for a call that succeeds.  Calls
beyond the plan succeed. -/
abbrev FaultPlan := List (Option Fault)

structure Faults where
  snapshot : FaultPlan
  latestSeq : FaultPlan
  event : FaultPlan
  scanBack : FaultPlan
  eventsAfter : FaultPlan
  deriving DecidableEq

namespace Faults

def none : Faults := ⟨[], [], [], [], []⟩

def plan (f : Faults) : ReadMethod → FaultPlan
  | .snapshot => f.snapshot
  | .latestSeq => f.latestSeq
  | .event => f.event
  | .scanBack => f.scanBack
  | .eventsAfter => f.eventsAfter

def withPlan (f : Faults) (m : ReadMethod) (p : FaultPlan) : Faults :=
  match m with
  | .snapshot => { f with snapshot := p }
  | .latestSeq => { f with latestSeq := p }
  | .event => { f with event := p }
  | .scanBack => { f with scanBack := p }
  | .eventsAfter => { f with eventsAfter := p }

/-- The outcome of the next call of a method, and the failures that are still to come. -/
def call (f : Faults) (m : ReadMethod) : Option Fault × Faults :=
  match f.plan m with
  | [] => (Option.none, f)
  | outcome :: rest => (outcome, f.withPlan m rest)

/-- Lets the call of a method after the next `skip` fail once.  It takes the place of what was planned
for the method. -/
def arm (f : Faults) (m : ReadMethod) (skip : Nat) (fault : Fault) : Faults :=
  f.withPlan m (List.replicate skip Option.none ++ [some fault])

/-- What the next walk of a method passes of `items`, and how it then fails, if it does. -/
def walk {α : Type} (f : Faults) (m : ReadMethod) (items : List α) :
    List α × Option ReadError × Faults :=
  match f.call m with
  | (Option.none, f) => (items, Option.none, f)
  | (some fault, f) => (items.take fault.visits, some fault.error, f)

/-- The outcome of the next call of a method that returns `a` if it succeeds. -/
def read {α : Type} (f : Faults) (m : ReadMethod) (a : α) : Except ReadError α × Faults :=
  match f.call m with
  | (Option.none, f) => (.ok a, f)
  | (some fault, f) => (.error fault.error, f)

end Faults

namespace View

/-- What is stored under a seq. -/
def readRow (v : View) (f : Faults) (seq : Nat) : Except ReadError (Option Stored) × Faults :=
  f.read .event (v.rows.get? seq)

/-- The rows that a walk passes which stops at the event after the first `max`. -/
def takeEvents : Option Nat → List (Nat × Stored) → List (Nat × Stored)
  | none, rows => rows
  | some _, [] => []
  | some max, (seq, .corrupt why) :: rest => (seq, .corrupt why) :: takeEvents (some max) rest
  | some 0, (_, .event _) :: _ => []
  | some (max + 1), (seq, .event e) :: rest => (seq, .event e) :: takeEvents (some max) rest

end View

end EventRelay
