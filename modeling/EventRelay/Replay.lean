import EventRelay.Log
import EventRelay.Scan
/-!
# Replays

The replay of a subscription delivers the stored events that its filters accept, up to a watermark:
filter by filter in the order of the group, each filter newest first and up to its limit, and no seq
twice.  Seqs above the watermark are left to live delivery.

A replay runs in slices, each against a view of its own.  Every so many units of work it looks at the
clock and pauses if its time is used up.  A read that fails ends the slice and leaves the replay where
it was.
-/

namespace EventRelay

/-- Whether the time of a slice is used up when the clock is looked at: asked with the number of the
filter and the work of its scan so far.  The work grows from look to look, so a clock may answer every
look in a way of its own. -/
abbrev Clock := Nat → Nat → Bool

namespace Clock

/-- The time is always used up. -/
def exhausted : Clock := fun _ _ => true

/-- The time is never used up. -/
def unlimited : Clock := fun _ _ => false

end Clock

/-- What a scan changes of a replay while it runs. -/
structure Tally where
  /-- Every seq delivered, the last first. -/
  sent : List Nat
  /-- The seqs at or below the watermark that the current filter has matched, the last first. -/
  found : List Nat
  /-- The work at which the clock was last looked at. -/
  lastCheck : Nat
  deriving DecidableEq

namespace Tally

/-- Adds a seq to a list of different seqs. -/
def note (seq : Nat) (seqs : List Nat) : List Nat := if seq ∈ seqs then seqs else seq :: seqs

end Tally

structure Replay where
  follower : Follower
  scan : Option Scan
  filterIndex : Nat
  /-- The subscription has been removed. -/
  dead : Bool
  tally : Tally
  /-- How often the current filter was paused. -/
  pauses : Nat
  totalWork : Nat
  authorKindCap : UInt64
  logLevel : LogLevel
  deriving DecidableEq

namespace Replay

/-- Units of work between two looks at the clock. -/
def workPerCheck : Nat := 2000

def start (follower : Follower) (authorKindCap : UInt64) (logScans : Bool) : Replay where
  follower := follower
  scan := none
  filterIndex := 0
  dead := false
  tally := ⟨[], [], 0⟩
  pauses := 0
  totalWork := 0
  authorKindCap := authorKindCap
  logLevel := if logScans then .info else .debug

def filters (r : Replay) : List Filter := r.follower.sub.filters.filters

/-- The seqs delivered so far, in order. -/
def delivered (r : Replay) : List Nat := r.tally.sent.reverse

/-- How a replay runs the scan of a filter: a match at or below the watermark is delivered unless it
has been, and the scan ends when the filter's limit is reached. -/
def control (r : Replay) (clock : Clock) (limit : UInt64) : Scan.Control Tally where
  onMatch t seq :=
    if r.follower.watermark < seq then (t, false)
    else
      let found := Tally.note seq t.found
      ({ t with sent := Tally.note seq t.sent, found }, limit.toNat ≤ found.length)
  pause t work :=
    if t.lastCheck + workPerCheck < work then
      ({ t with lastCheck := work }, clock r.filterIndex work)
    else (t, false)

/-- The report of the current scan, once it is complete. -/
def scanReport (r : Replay) (s : Scan) : LogLine := .scanComplete r.logLevel {
  sub := r.follower.sub.toRecipient
  filter := r.filterIndex
  index := s.index
  indexOnly := s.indexOnly
  pauses := r.pauses
  found := r.tally.found.length
  work := s.work }

def replayReport (r : Replay) : LogLine := .replayComplete r.logLevel {
  sub := r.follower.sub.toRecipient
  totalWork := r.totalWork
  sent := r.tally.sent.length }

/-- Goes on to the next filter. -/
def finishFilter (r : Replay) : Replay :=
  { r with
    scan := none
    filterIndex := r.filterIndex + 1
    tally := { r.tally with found := [], lastCheck := 0 }
    pauses := 0
    totalWork := r.totalWork + match r.scan with
      | some s => s.work
      | none => 0 }

/-- What a slice leaves behind. -/
structure Slice where
  replay : Replay
  /-- Whether the replay is complete, or that a read failed. -/
  outcome : Except ReadError Bool
  faults : Faults
  log : List LogLine

/-- Runs a replay against a view until it is complete, its time is used up or a read fails.  `log`
holds the lines written so far. -/
def process (r : Replay) (v : View) (clock : Clock) (f : Faults) (log : List LogLine) : Slice :=
  match _h : r.filters[r.filterIndex]? with
  | none => ⟨r, .ok true, f, log ++ [r.replayReport]⟩
  | some filter =>
    if filter.limit = 0 then process r.finishFilter v clock f log
    else
      let scan := r.scan.getD (Scan.ofFilter filter r.authorKindCap)
      let run := scan.run (r.control clock filter.limit) v f r.tally []
      let log := log ++ run.reports.map .corruptRow
      match run.outcome with
      | .error e => ⟨{ r with scan := some run.scan, tally := run.state }, .error e, run.faults, log⟩
      | .ok false =>
        ⟨{ r with scan := some run.scan, tally := run.state, pauses := r.pauses + 1 }, .ok false,
          run.faults, log⟩
      | .ok true =>
        process { r with scan := some run.scan, tally := run.state }.finishFilter v clock run.faults
          (log ++ [{ r with scan := some run.scan, tally := run.state }.scanReport run.scan])
termination_by r.filters.length - r.filterIndex
decreasing_by
  all_goals
    have := (List.getElem?_eq_some_iff.1 _h).1
    simp only [finishFilter, filters] at this ⊢
    omega

/-- The seqs that were delivered between two states of a replay, in order. -/
def deliveredSince (before after : Replay) : List Nat :=
  (after.tally.sent.take (after.tally.sent.length - before.tally.sent.length)).reverse

end Replay

end EventRelay
