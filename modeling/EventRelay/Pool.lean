import EventRelay.Worker
/-!
# Pools of workers

A pool shares the connections out among its workers by the remainder of their numbers.  A message of a
connection goes to that connection's worker, news of the store to all of them.
-/

namespace EventRelay

/-- The connection that a message is about; none for news of the store. -/
def Message.conn? : Message → Option ConnId
  | .newSub sub => some sub.conn
  | .removeSub who => some who.conn
  | .closeConn conn => some conn
  | .dbChange => none

structure Pool where
  workers : List Worker
  deriving DecidableEq

namespace Pool

/-- A pool has at least one worker. -/
def start (c : Config) : Pool := ⟨List.replicate (max c.numWorkers.toNat 1) (.start c)⟩

/-- Whether a message goes to the worker of this number. -/
def reaches (p : Pool) (m : Message) (worker : Nat) : Bool :=
  match m.conn? with
  | some conn => conn % p.workers.length = worker
  | none => true

/-- What each worker is sent when a message comes in. -/
def inboxes (p : Pool) (m : Message) : List (List Message) :=
  (List.range p.workers.length).map fun i => if p.reaches m i then [m] else []

/-- Whether no worker has anything left to do. -/
def isIdle (p : Pool) : Bool := p.workers.all Worker.isIdle

/-- A step of every worker that has messages or anything left to do; what each of them sends.  `clocks`
gives the clock of a worker by its number. -/
def step (p : Pool) (v : View) (clocks : Nat → Clock) (f : Faults) (inboxes : List (List Message)) :
    Pool × List (List Delivery) × Faults :=
  let (workers, out, f) := (p.workers.zip inboxes).zipIdx.foldl
    (fun (workers, out, f) ((w, messages), worker) =>
      if w.isIdle && messages.isEmpty then (workers ++ [w], out ++ [[]], f)
      else
        let pass := w.step v (clocks worker) f messages
        (workers ++ [pass.worker], out ++ [pass.out], pass.faults))
    (([], [], f) : List Worker × List (List Delivery) × Faults)
  (⟨workers⟩, out, f)

/-- The empty inboxes of a pool. -/
def noMessages (p : Pool) : List (List Message) := List.replicate p.workers.length []

end Pool

end EventRelay
