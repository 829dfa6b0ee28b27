import EventRelay.Pool
import EventRelay.RelayLine
import EventRelay.Store.Rows
/-!
# Following a filter

A client follows a filter group: it is sent the stored events that the group accepts, the end of the
stored events, and from then on every matching event as it is stored.  A pool of workers does the
work.  The store belongs to other programs as well, so the follower looks at its latest seq from time
to time and tells the pool if that has grown.

A follower is a state that changes in three ways, in any order: `look` compares the latest seq with the
last one seen, `turn` gives a worker a turn against a view, `close` ends it.  The seq seen first is only
noted.
-/

namespace EventRelay

structure Follow where
  pool : Pool
  /-- What the workers have been sent and not handled yet. -/
  inboxes : List (List Message)
  /-- The latest seq seen. -/
  seen : Option Nat
  deriving DecidableEq

namespace Follow

/-- The name under which a follower asks for events. -/
def subId : SubId := ⟨"req", by decide +kernel⟩

def recipient : Recipient := ⟨0, subId⟩

/-- Sends a message to the workers that it concerns. -/
def post (f : Follow) (m : Message) : Follow :=
  { f with inboxes := (f.inboxes.zip (f.pool.inboxes m)).map fun x => x.1 ++ x.2 }

/-- A follower that has asked for the events of a group. -/
def start (c : Config) (group : FilterGroup) : Follow :=
  let pool := Pool.start c
  ({ pool, inboxes := pool.noMessages, seen := none } : Follow).post (.newSub ⟨recipient, group⟩)

/-- Looks at the latest seq of the store. -/
def look (f : Follow) (latest : Nat) : Follow :=
  match f.seen with
  | none => { f with seen := some latest }
  | some seen => if seen < latest then { f with seen := some latest }.post .dbChange else f

/-- Whether the workers have nothing left to do. -/
def isIdle (f : Follow) : Bool := f.pool.isIdle && f.inboxes.all List.isEmpty

/-- Gives a worker a turn with the first `taken` of the messages that it has been sent; one that has
nothing to do waits. -/
def turn (f : Follow) (v : View) (clock : Clock) (worker taken : Nat) : Follow × List Delivery :=
  match f.pool.workers[worker]?, f.inboxes[worker]? with
  | some w, some inbox =>
    let messages := inbox.take taken
    if w.isIdle && messages.isEmpty then (f, [])
    else
      let pass := w.step v clock .none messages
      ({ f with
          pool := ⟨f.pool.workers.set worker pass.worker⟩
          inboxes := f.inboxes.set worker (inbox.drop taken) }, pass.out)
  | _, _ => (f, [])

/-- Gives every worker a turn with all the messages that it has been sent.  `clocks` gives the clock of a
worker by its number. -/
def step (f : Follow) (v : View) (clocks : Nat → Clock) : Follow × List Delivery :=
  (List.range f.pool.workers.length).foldl
    (fun (f, out) worker =>
      let (f, ds) := f.turn v (clocks worker) worker (f.inboxes[worker]?.getD []).length
      (f, out ++ ds))
    (f, [])

/-- Ends what was asked for. -/
def close (f : Follow) : Follow := f.post (.closeConn recipient.conn)

/-- The line that a delivery prints; an event whose text is gone prints none. -/
def line? (s : RowStore) : Delivery → Option String
  | .event _ seq => (s.text? seq).map (RelayLine.event subId)
  | .live seq who => if recipient ∈ who then (s.text? seq).map (RelayLine.event subId) else none
  | .eose _ => some (RelayLine.eose subId)
  | .notice _ text => some (RelayLine.notice text)

end Follow

end EventRelay
