import EventRelay.RelayLine
import EventRelay.Replay.Drain
import EventRelay.Scheduler
import EventRelay.Store.Rows
/-!
# Listings

A listing replays every stored event that a filter group accepts, newest first within a filter, and
prints the stored texts or their number.  The clock may pause the replay; it then goes on at once.
-/

namespace EventRelay

/-- What a listing prints and logs. -/
structure Listing where
  lines : List String
  log : List LogLine

namespace Listing

/-- The name under which a listing asks for events. -/
def subId : SubId := ⟨"scan", by decide +kernel⟩

/-- The replay of a listing; everything stored is below its watermark. -/
def replay (s : RowStore) (c : Config) (group : FilterGroup) : Replay :=
  .start ⟨⟨⟨0, subId⟩, group⟩, s.view.latestSeq⟩ c.authorKindCap c.logScans

/-- Lists the events of a store; `countOnly` asks for their number alone. -/
def run (s : RowStore) (c : Config) (clock : Clock) (group : FilterGroup) (countOnly : Bool) : Listing :=
  let slice := (replay s c group).drain s.view clock Faults.none []
  let seqs := slice.replay.delivered
  { lines :=
      if countOnly then [toString seqs.length]
      else (seqs.filterMap s.text?).map (RelayLine.event subId)
    log := slice.log }

end Listing

end EventRelay
