import EventRelay.Filter.Grammar
import EventRelay.Main
import EventRelay.Store.Session
import EventRelay.Proofs.Index.KeyOrder
import EventRelay.Proofs.Store.Content
import EventRelay.Proofs.Scan.Consistency
import EventRelay.Proofs.Scan.Agenda
import EventRelay.Proofs.FirstOccurrences
import EventRelay.Proofs.Replay.Run
import EventRelay.Proofs.Scan.Stretch
import EventRelay.Proofs.Scan.Steady
import EventRelay.Proofs.Reading
import EventRelay.Proofs.Scan.Plans
import EventRelay.Proofs.Replay.Answer
import EventRelay.Proofs.Scan.Coverage
import EventRelay.Proofs.Replay.Outlook
import EventRelay.Proofs.Replay.Delivery
import EventRelay.Proofs.Replay.Shadow
import EventRelay.Proofs.Replay.Growth
import EventRelay.Proofs.Scan.Resumption
import EventRelay.Proofs.Replay.Resumption
import EventRelay.Proofs.Replay.Account
import EventRelay.Proofs.Replay.Changing
import EventRelay.Proofs.Scheduler.Serving
import EventRelay.Proofs.Monitors.Upkeep
import EventRelay.Proofs.Monitors.Dispatch
import EventRelay.Proofs.Monitors.Register
import EventRelay.Proofs.Store.Between
import EventRelay.Proofs.Store.Change
import EventRelay.Proofs.Worker.Life
import EventRelay.Proofs.Worker.Pieces
import EventRelay.Proofs.Worker.Record
import EventRelay.Proofs.Worker.Steps
import EventRelay.Proofs.Worker.Standing
import EventRelay.Proofs.Worker.Progress
import EventRelay.Proofs.Worker.Run
import EventRelay.Proofs.Worker.Tale
import EventRelay.Proofs.Worker.Whereabouts
import EventRelay.Proofs.Worker.Course
import EventRelay.Proofs.Worker.Holdings
import EventRelay.Proofs.Worker.Capacity
import EventRelay.Proofs.Worker.Undisturbed
import EventRelay.Proofs.Follow.Watch
import EventRelay.Proofs.Follow.Misses
import EventRelay.Proofs.Store.Queries
import EventRelay.Proofs.Store.Twins
import EventRelay.Proofs.Store.Damage
import EventRelay.Proofs.Scan.Reads
import EventRelay.Proofs.Replay.Ghosts
import EventRelay.Proofs.Store.Dates
import EventRelay.Proofs.Scan.NewestFirst
import EventRelay.Proofs.Json.Names
import EventRelay.Proofs.Text.Spelling
import EventRelay.Proofs.Filter.Clauses
import EventRelay.Proofs.Filter.Meaning
import EventRelay.Proofs.Replay.Work
import EventRelay.Proofs.Scheduler.Books
import EventRelay.Proofs.Monitors.Books
import EventRelay.Proofs.Store.Ledger
import EventRelay.Proofs.Scan.Descent
import EventRelay.Proofs.Replay.Descent
import EventRelay.Proofs.Scheduler.Descent
import EventRelay.Proofs.Worker.Settling
import EventRelay.Proofs.Text.Utf8
import EventRelay.Proofs.Event.RoundTrip
import EventRelay.Proofs.Store.Packing
import EventRelay.Proofs.Store.Containment
import EventRelay.Proofs.Filter.Faults
import EventRelay.Proofs.Index.Layouts
import EventRelay.Proofs.Scan.Outstanding
import EventRelay.Proofs.Import.FirstWins
import EventRelay.Proofs.Scheduler.Failures
import EventRelay.Proofs.Worker.Unhindered
import EventRelay.Proofs.Worker.Setbacks
