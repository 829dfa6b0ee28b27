import EventRelay.Config
import EventRelay.KeyMap
import EventRelay.Replay
/-!
# The scheduler

The scheduler gives the replays of one worker turns, one slice each, in the order of its ready queue.
A new replay goes to the front, one that has used up its time or met a failing read to the back.  When
the time of a slice is used up is for the clock of the turn to say.

The registry says which replay serves which subscription.  Removing a subscription takes it out of
the registry and only marks its replay dead; the replay is dropped at its next turn.
-/

namespace EventRelay

/-- A subscription refused because its connection holds as many as it may. -/
structure Refusal where
  conn : ConnId
  max : Nat
  deriving DecidableEq

/-- Why the engine cannot do what it is asked. -/
inductive EngineError where
  | refused (r : Refusal)
  | store (e : ReadError)
  deriving DecidableEq

def EngineError.message : EngineError → String
  | .refused r => "too many concurrent REQs on connection " ++ toString r.conn
      ++ " (max " ++ toString r.max ++ ")"
  | .store e => "store error: " ++ e.message

structure Scheduler where
  config : Config
  /-- The number of the replay that serves a subscription, by connection and name. -/
  registry : KeyMap ConnId (KeyMap SubId Nat)
  replays : KeyMap Nat Replay
  /-- The replays that wait for a turn, the next one first. -/
  ready : List Nat
  nextId : Nat
  deriving DecidableEq

namespace Scheduler

def start (config : Config) : Scheduler := ⟨config, .empty, .empty, [], 0⟩

/-- How many replays serve a connection. -/
def connSubs (s : Scheduler) (conn : ConnId) : Nat :=
  match s.registry.get? conn with
  | none => 0
  | some subs => subs.size

/-- The number of the replay that serves a subscription. -/
def idOf? (s : Scheduler) (who : Recipient) : Option Nat :=
  (s.registry.get? who.conn).bind (·.get? who.subId)

def contains (s : Scheduler) (who : Recipient) : Bool := (s.idOf? who).isSome

def isIdle (s : Scheduler) : Bool := s.ready.isEmpty

def kill (s : Scheduler) (id : Nat) : Scheduler :=
  { s with replays := s.replays.modify id fun r => { r with dead := true } }

/-- The registry without a subscription; a connection left without any goes, too. -/
def unregister (registry : KeyMap ConnId (KeyMap SubId Nat)) (who : Recipient) :
    KeyMap ConnId (KeyMap SubId Nat) :=
  match registry.get? who.conn with
  | none => registry
  | some subs =>
    let subs := subs.erase who.subId
    if subs.isEmpty then registry.erase who.conn else registry.insert who.conn subs

/-- Removes a subscription; its replay is dropped at its next turn. -/
def remove (s : Scheduler) (who : Recipient) : Scheduler :=
  let cut := { s with registry := unregister s.registry who }
  match s.idOf? who with
  | none => cut
  | some id => cut.kill id

/-- Removes every subscription of a connection. -/
def closeConn (s : Scheduler) (conn : ConnId) : Scheduler :=
  match s.registry.get? conn with
  | none => s
  | some subs => subs.values.foldl kill { s with registry := s.registry.erase conn }

/-- Starts the replay of a subscription up to the watermark, in place of one of the same name.  `live`
is how many subscriptions the connection holds elsewhere; if it holds as many as it may, nothing is
started. -/
def add (s : Scheduler) (sub : Subscription) (watermark live : Nat) : Scheduler × Option Refusal :=
  let s := s.remove sub.toRecipient
  let max := s.config.maxSubsPerConnection.toNat
  if max ≤ s.connSubs sub.conn + live then (s, some ⟨sub.conn, max⟩)
  else
    let subs := (s.registry.get? sub.conn).getD .empty
    ({ s with
        registry := s.registry.insert sub.conn (subs.insert sub.subId s.nextId)
        replays := s.replays.insert s.nextId
          (Replay.start ⟨sub, watermark⟩ s.config.authorKindCap s.config.logScans)
        ready := s.nextId :: s.ready
        nextId := s.nextId + 1 }, none)

/-- What a turn leaves behind. -/
structure Turn where
  scheduler : Scheduler
  /-- The deliveries of the turn, in order. -/
  delivered : List (Recipient × Nat)
  /-- The subscription whose replay has become complete, if one has, or that a read failed. -/
  finished : Except ReadError (Option Follower)
  faults : Faults
  log : List LogLine

/-- Gives the first replay of the ready queue a turn. -/
def process (s : Scheduler) (v : View) (clock : Clock) (f : Faults) : Turn :=
  match s.ready with
  | [] => ⟨s, [], .ok none, f, []⟩
  | id :: rest =>
    let s := { s with ready := rest }
    match s.replays.get? id with
    | none => ⟨s, [], .ok none, f, []⟩
    | some r =>
      if r.dead then ⟨{ s with replays := s.replays.erase id }, [], .ok none, f, []⟩
      else
        let slice := r.process v clock f []
        let who := r.follower.sub.toRecipient
        let delivered := (r.deliveredSince slice.replay).map fun seq => (who, seq)
        let waiting := { s with
          replays := s.replays.insert id slice.replay
          ready := s.ready ++ [id] }
        match slice.outcome with
        | .error e => ⟨waiting, delivered, .error e, slice.faults, slice.log⟩
        | .ok false => ⟨waiting, delivered, .ok none, slice.faults, slice.log⟩
        | .ok true =>
          ⟨{ s with replays := s.replays.erase id }.remove who, delivered,
            .ok (some slice.replay.follower), slice.faults, slice.log⟩

end Scheduler

end EventRelay
