import EventRelay.Monitors
/-!
# Workers

A worker serves a share of the connections.  A new subscription is first replayed up to the last seq
stored when it is taken on; when the replay is complete it goes through the handoff, where it gets the
events that the monitors have passed meanwhile, and is then followed live.

A worker works in steps.  A step takes the messages at hand, gives one replay a turn and empties the
handoff queue as far as it can, all against one view of the store.  The clock of the step says when the
time of the turn is used up.  A read that fails holds up only its own piece of work, which stays queued;
the first failure is the outcome of the step.  If the view itself cannot be had, the messages wait for the
next step.
-/

namespace EventRelay

inductive Message where
  /-- Replay a subscription, then follow it. -/
  | newSub (sub : Subscription)
  | removeSub (who : Recipient)
  | closeConn (conn : ConnId)
  /-- New events have been stored. -/
  | dbChange
  deriving DecidableEq

/-- What a worker sends. -/
inductive Delivery where
  /-- A stored event, by replay. -/
  | event (who : Recipient) (seq : Nat)
  /-- The replay is complete. -/
  | eose (who : Recipient)
  /-- A newly stored event, and all who get it. -/
  | live (seq : Nat) (who : List Recipient)
  | notice (conn : ConnId) (text : String)
  deriving DecidableEq

namespace Delivery

/-- The notice to a connection that holds as many subscriptions as it may. -/
def tooManySubs (conn : ConnId) : Delivery := .notice conn "too many concurrent REQs"

end Delivery

structure Worker where
  queries : Scheduler
  monitors : Monitors
  /-- Messages not yet handled. -/
  pending : List Message
  /-- Subscriptions between replay and live delivery, the first to be installed first. -/
  handoffs : List Follower
  /-- Every event up to this seq has been shown to the monitors; none before the first view. -/
  position : Option Nat
  deriving DecidableEq

namespace Worker

def start (c : Config) : Worker :=
  ⟨.start c, .start c.maxSubsPerConnection.toNat, [], [], none⟩

/-- Whether no replay, message or handoff waits for another step. -/
def isIdle (w : Worker) : Bool := w.queries.isIdle && w.pending.isEmpty && w.handoffs.isEmpty

/-- What a step has come to so far. -/
structure Pass where
  worker : Worker
  out : List Delivery
  /-- The first read that failed. -/
  failure : Option ReadError
  faults : Faults
  log : List LogLine

namespace Pass

/-- Notes a failed read, unless one has been noted before. -/
def fail (p : Pass) (e : ReadError) : Pass := { p with failure := p.failure.or (some e) }

def send (p : Pass) (ds : List Delivery) : Pass := { p with out := p.out ++ ds }

end Pass

/-! ### Dispatch -/

/-- Shows events to the monitors, in order. -/
def showAll (m : Monitors) : List (Nat × Event) → Monitors × List Delivery
  | [] => (m, [])
  | (seq, e) :: rest =>
    let (m, who) := m.dispatch seq e
    let (m, out) := showAll m rest
    (m, if who.isEmpty then out else .live seq who :: out)

/-- The seq of the last of some events, or `before` if there are none. -/
def lastSeq (before : Nat) (events : List (Nat × Event)) : Nat :=
  (events.getLast?.map Prod.fst).getD before

/-- Shows the monitors every event stored since.  If the read fails, the worker's position is the last
event shown, and the pass is queued again. -/
def dispatch (v : View) (p : Pass) : Pass :=
  let w := p.worker
  let position := w.position.getD v.latestSeq
  let (events, error, faults) := p.faults.walk .eventsAfter (v.eventsAfter position)
  let (monitors, out) := showAll w.monitors events
  let p := ({ p with faults }).send out
  match error with
  | none => { p with worker := { w with monitors, position := some v.latestSeq } }
  | some e =>
    { p with worker := { w with
        monitors
        position := some (lastSeq position events)
        pending := [.dbChange] } }.fail e

/-! ### Messages -/

/-- Takes a subscription out of the handoff queue. -/
def dropHandoff (w : Worker) (who : Recipient) : Worker :=
  { w with handoffs := w.handoffs.filter fun h => h.sub.toRecipient ≠ who }

/-- How many subscriptions of a connection are past their replay. -/
def liveSubs (w : Worker) (conn : ConnId) : Nat :=
  w.monitors.connSubs conn + w.handoffs.countP fun h => h.sub.conn = conn

/-- Takes a subscription on, in place of one of the same name. -/
def addSub (v : View) (p : Pass) (sub : Subscription) : Pass :=
  let who := sub.toRecipient
  let w := { p.worker with monitors := p.worker.monitors.remove who }.dropHandoff who
  let (queries, refusal) := w.queries.add sub v.latestSeq (w.liveSubs sub.conn)
  let p := { p with worker := { w with queries } }
  match refusal with
  | none => p
  | some _ => p.send [.tooManySubs sub.conn]

def removeSub (w : Worker) (who : Recipient) : Worker :=
  { w with queries := w.queries.remove who, monitors := w.monitors.remove who }.dropHandoff who

def closeConn (w : Worker) (conn : ConnId) : Worker :=
  { w with
    queries := w.queries.closeConn conn
    monitors := w.monitors.closeConn conn
    handoffs := w.handoffs.filter fun h => h.sub.conn ≠ conn }

def handle (v : View) (p : Pass) : Message → Pass
  | .newSub sub => addSub v p sub
  | .removeSub who => { p with worker := p.worker.removeSub who }
  | .closeConn conn => { p with worker := p.worker.closeConn conn }
  | .dbChange => dispatch v p

/-! ### Replay and handoff -/

/-- Gives one replay a turn; one that becomes complete goes to the end of the handoff queue. -/
def runQuery (v : View) (clock : Clock) (p : Pass) : Pass :=
  let w := p.worker
  let turn := w.queries.process v clock p.faults
  let p := { p with
    worker := { w with queries := turn.scheduler }
    faults := turn.faults
    log := p.log ++ turn.log }
  let p := p.send (turn.delivered.map fun d => .event d.1 d.2)
  match turn.finished with
  | .error e => p.fail e
  | .ok none => p
  | .ok (some follower) =>
    { p with worker := { p.worker with handoffs := p.worker.handoffs ++ [follower] } }.send
      [.eose follower.sub.toRecipient]

/-- Gives a subscription the events between its watermark and the position of the monitors.  If the
read fails, its watermark is the last event passed. -/
def catchUp (v : View) (position : Nat) (f : Faults) (follower : Follower) :
    Follower × List Delivery × Option ReadError × Faults :=
  if follower.watermark < position then
    let (events, error, f) := f.walk .eventsAfter (v.eventsAfter follower.watermark)
    let passed := events.takeWhile fun x => x.1 ≤ position
    let who := follower.sub.toRecipient
    let out := (passed.filter fun x => follower.sub.filters.accepts x.2).map fun x => .live x.1 [who]
    let watermark := match error with
      | none => position
      | some _ => lastSeq follower.watermark passed
    ({ follower with watermark }, out, error, f)
  else (follower, [], none, f)

/-- Lets the handoff queue go live, first in first out.  A subscription that cannot be caught up stays
at its head, with everything behind it. -/
def install (v : View) (position : Nat) (p : Pass) : List Follower → Pass
  | [] => { p with worker := { p.worker with handoffs := [] } }
  | follower :: rest =>
    let (follower, out, error, faults) := catchUp v position p.faults follower
    let p := ({ p with faults }).send out
    match error with
    | some e => { p with worker := { p.worker with handoffs := follower :: rest } }.fail e
    | none =>
      let (monitors, refusal) := p.worker.monitors.install follower
      let p := { p with worker := { p.worker with monitors } }
      let p := match refusal with
        | none => p
        | some _ => p.send [.tooManySubs follower.sub.conn]
      install v position p rest

/-! ### Steps -/

/-- The position of the monitors once a view is at hand: never above the last seq of the view. -/
def positionIn (w : Worker) (v : View) : Nat :=
  match w.position with
  | none => v.latestSeq
  | some n => min n v.latestSeq

/-- A step against a view that could be opened. -/
def stepIn (w : Worker) (v : View) (clock : Clock) (f : Faults) : Pass :=
  let messages := w.pending
  let w := { w with pending := [], position := some (w.positionIn v) }
  let p := messages.foldl (handle v) ⟨w, [], none, f, []⟩
  let p := runQuery v clock p
  install v (p.worker.position.getD 0) p p.worker.handoffs

/-- Handles messages, gives one replay a turn and empties the handoff queue. -/
def step (w : Worker) (v : View) (clock : Clock) (f : Faults) (messages : List Message) : Pass :=
  let w := { w with pending := w.pending ++ messages }
  match f.read .snapshot () with
  | (.error e, f) => ⟨w, [], some e, f, []⟩
  | (.ok _, f) =>
    match f.read .latestSeq () with
    | (.error e, f) => ⟨w, [], some e, f, []⟩
    | (.ok _, f) => w.stepIn v clock f

end Worker

end EventRelay
