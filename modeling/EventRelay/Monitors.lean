import EventRelay.KeyMap
import EventRelay.Index
import EventRelay.Scheduler
/-!
# Monitors

The monitors match newly stored events against the subscriptions that are followed live.  Every
filter has a handle, and every value of its primary field has a bucket with the handles of the filters
that list it; filters without a primary field share one bucket.  An event is shown only to the filters
in the buckets that its own values name, and each of them judges it in full.

An event goes to a subscription at most once, however many of its filters accept it: a filter is not
shown a seq again, and neither is a subscription that has got it.
-/

namespace EventRelay

open Std

/-- What a bucket gathers: the filters that ask for one value, or those without a primary field. -/
inductive BucketKey where
  | id (i : Id)
  | author (a : Id)
  | tag (stem : Bytes)
  | kind (k : UInt64)
  | other
  deriving DecidableEq

namespace BucketKey

/-- The buckets that a filter with this primary field is put into. -/
def ofField : PrimaryField → List BucketKey
  | .ids ids => ids.toList.map .id
  | .tag name values => values.toList.map fun v => .tag (Stem.ofTag name v)
  | .authors authors => authors.toList.map .author
  | .kinds kinds => kinds.toList.map .kind
  | .none => [.other]

/-- The buckets whose filters are shown an event, in order. -/
def ofEvent (e : Event) : List BucketKey :=
  [.id e.id, .author e.author] ++ (e.tags.map fun t => .tag (Stem.ofTag t.name t.value))
    ++ [.kind e.kind, .other]

end BucketKey

abbrev Bucket := OrderedSet Nat compare

/-- A filter that is followed live. -/
structure Installed where
  owner : Recipient
  /-- The number of the filter in its group. -/
  filterIndex : Nat
  /-- The greatest seq it has been shown. -/
  latestSeq : Nat
  deriving DecidableEq

/-- A subscription that is followed live. -/
structure Monitor where
  follower : Follower
  /-- The handles of its filters, in order. -/
  handles : List Nat
  deriving DecidableEq

structure Monitors where
  maxSubsPerConnection : Nat
  conns : KeyMap ConnId (KeyMap SubId Monitor)
  /-- The filters by handle. -/
  arena : KeyMap Nat Installed
  nextHandle : Nat
  buckets : KeyMap BucketKey Bucket
  deriving DecidableEq

namespace Monitors

def start (maxSubsPerConnection : Nat) : Monitors := ⟨maxSubsPerConnection, .empty, .empty, 0, .empty⟩

def connSubs (m : Monitors) (conn : ConnId) : Nat :=
  match m.conns.get? conn with
  | none => 0
  | some subs => subs.size

/-- The monitor of a subscription. -/
def get? (m : Monitors) (who : Recipient) : Option Monitor :=
  (m.conns.get? who.conn).bind (·.get? who.subId)

def contains (m : Monitors) (who : Recipient) : Bool := (m.get? who).isSome

/-- Whether nothing is followed and nothing is left of what was. -/
def isEmpty (m : Monitors) : Bool := m.conns.isEmpty && m.arena.isEmpty && m.buckets.isEmpty

/-! ### Handles and buckets -/

/-- Puts a handle into a bucket. -/
def enter (buckets : KeyMap BucketKey Bucket) (h : Nat) (key : BucketKey) :
    KeyMap BucketKey Bucket :=
  buckets.insert key (((buckets.get? key).getD .empty).insert h)

/-- Takes a handle out of a bucket; a bucket left empty goes. -/
def leave (buckets : KeyMap BucketKey Bucket) (h : Nat) (key : BucketKey) :
    KeyMap BucketKey Bucket :=
  match buckets.get? key with
  | none => buckets
  | some bucket =>
    let bucket := bucket.erase h
    if bucket.isEmpty then buckets.erase key else buckets.insert key bucket

/-- Gives a filter a handle and puts it into its buckets. -/
def addFilter (who : Recipient) (watermark : Nat) (m : Monitors) (filter : Filter × Nat) : Monitors :=
  { m with
    arena := m.arena.insert m.nextHandle ⟨who, filter.2, watermark⟩
    nextHandle := m.nextHandle + 1
    buckets := (BucketKey.ofField filter.1.primaryField).foldl
      (fun buckets key => enter buckets m.nextHandle key) m.buckets }

/-- Takes a filter and its handle away. -/
def removeFilter (m : Monitors) (filter : Filter × Nat) : Monitors :=
  { m with
    arena := m.arena.erase filter.2
    buckets := (BucketKey.ofField filter.1.primaryField).foldl
      (fun buckets key => leave buckets filter.2 key) m.buckets }

/-- Takes the filters of a monitor away. -/
def uninstall (m : Monitors) (monitor : Monitor) : Monitors :=
  (monitor.follower.sub.filters.filters.zip monitor.handles).foldl removeFilter m

/-! ### Subscriptions -/

/-- Stops following a subscription. -/
def remove (m : Monitors) (who : Recipient) : Monitors :=
  match m.conns.get? who.conn with
  | none => m
  | some subs =>
    match subs.get? who.subId with
    | none => m
    | some monitor =>
      let subs := subs.erase who.subId
      let conns := if subs.isEmpty then m.conns.erase who.conn else m.conns.insert who.conn subs
      { m with conns }.uninstall monitor

/-- Stops following every subscription of a connection. -/
def closeConn (m : Monitors) (conn : ConnId) : Monitors :=
  match m.conns.get? conn with
  | none => m
  | some subs => subs.values.foldl uninstall { m with conns := m.conns.erase conn }

/-- Follows a subscription from its watermark on, in place of one of the same name.  If its connection
holds as many as it may, nothing is installed. -/
def install (m : Monitors) (follower : Follower) : Monitors × Option Refusal :=
  let who := follower.sub.toRecipient
  let m := m.remove who
  if m.maxSubsPerConnection ≤ m.connSubs who.conn then (m, some ⟨who.conn, m.maxSubsPerConnection⟩)
  else
    let filters := follower.sub.filters.filters
    let handles := List.range' m.nextHandle filters.length
    let added := filters.zipIdx.foldl (addFilter who follower.watermark) m
    let subs := (m.conns.get? who.conn).getD .empty
    ({ added with conns := m.conns.insert who.conn (subs.insert who.subId ⟨follower, handles⟩) }, none)

/-! ### Dispatch -/

/-- Changes the monitor of a subscription. -/
def modify (m : Monitors) (who : Recipient) (f : Monitor → Monitor) : Monitors :=
  { m with conns := m.conns.modify who.conn fun subs => subs.modify who.subId f }

/-- Shows an event to the filter of a handle, unless it has been shown the seq or its subscription has
got it.  `found` are the recipients so far. -/
def visit (seq : Nat) (e : Event) (state : Monitors × List Recipient) (h : Nat) :
    Monitors × List Recipient :=
  let (m, found) := state
  match m.arena.get? h with
  | none => state
  | some item =>
    match m.get? item.owner with
    | none => state
    | some monitor =>
      if seq ≤ item.latestSeq ∨ seq ≤ monitor.follower.watermark then state
      else
        let m := { m with arena := m.arena.insert h { item with latestSeq := seq } }
        match monitor.follower.sub.filters.filters[item.filterIndex]? with
        | none => (m, found)
        | some filter =>
          if filter.accepts e then
            (m.modify item.owner fun monitor =>
              { monitor with follower := { monitor.follower with watermark := seq } },
             found ++ [item.owner])
          else (m, found)

/-- Shows an event to every filter of a bucket. -/
def visitBucket (seq : Nat) (e : Event) (state : Monitors × List Recipient) (key : BucketKey) :
    Monitors × List Recipient :=
  match state.1.buckets.get? key with
  | none => state
  | some bucket => bucket.toList.foldl (visit seq e) state

/-- Matches an event stored under a seq that is greater than those before it; the subscriptions that
get it, each once. -/
def dispatch (m : Monitors) (seq : Nat) (e : Event) : Monitors × List Recipient :=
  (BucketKey.ofEvent e).foldl (visitBucket seq e) (m, [])

end Monitors

end EventRelay
