import EventRelay.Proofs.Worker.Life
/-!
# Records

A record is a transcript that says, too, which subscriptions are taken on.

Main statement: `map_item_record` (a record is a transcript with more in it).
-/

namespace EventRelay

/-- What a worker does. -/
inductive Deed where
  /-- A message is handled, against a view with that latest seq, and a subscription may be taken on. -/
  | handled (m : Message) (latest : Nat) (taken : Bool)
  | sent (d : Delivery)
  deriving DecidableEq

namespace Deed

def item : Deed → Item
  | .handled m latest _ => .handled m latest
  | .sent d => .sent d

end Deed

namespace Worker

/-- Whether a message makes a worker take a subscription on. -/
def takesOn (v : View) (p : Pass) : Message → Bool
  | .newSub sub =>
    let who := sub.toRecipient
    let w := { p.worker with monitors := p.worker.monitors.remove who }.dropHandoff who
    (w.queries.add sub v.latestSeq (w.liveSubs sub.conn)).2.isNone
  | _ => false

/-! ### Records -/

/-- What has been sent between two states of a pass. -/
def Pass.deedsSince (p p' : Pass) : List Deed := (p'.out.drop p.out.length).map .sent

/-- The record while messages are handled. -/
def recordOf (v : View) (p : Pass) : List Message → List Deed
  | [] => []
  | m :: rest =>
    .handled m v.latestSeq (takesOn v p m)
      :: (p.deedsSince (handle v p m) ++ recordOf v (handle v p m) rest)

/-- The record of a step against a view. -/
def recordIn (w : Worker) (v : View) (clock : Clock) (f : Faults) : List Deed :=
  recordOf v (w.begin v f) w.pending ++ (w.briefed v f).deedsSince (w.stepIn v clock f)

/-- The record of a step. -/
def record (w : Worker) (v : View) (clock : Clock) (f : Faults) (messages : List Message) : List Deed :=
  let w := { w with pending := w.pending ++ messages }
  match f.read .snapshot () with
  | (.error _, _) => []
  | (.ok _, f) =>
    match f.read .latestSeq () with
    | (.error _, _) => []
    | (.ok _, f) => w.recordIn v clock f

theorem Pass.deedsSince_eq {p p' : Pass} {ds : List Delivery} (h : p'.out = p.out ++ ds) :
    p.deedsSince p' = ds.map .sent := by
  rw [deedsSince, h, List.drop_left]

theorem Pass.map_item_deedsSince {p p' : Pass} : (p.deedsSince p').map Deed.item = p.since p' :=
  List.map_map

theorem map_item_recordOf (v : View) (p : Pass) (ms : List Message) :
    (recordOf v p ms).map Deed.item = transcriptOf v p ms := by
  induction ms generalizing p with
  | nil => rfl
  | cons m rest ih =>
    rw [recordOf, List.map_cons, List.map_append, Pass.map_item_deedsSince, ih]
    rfl

/-- A record is a transcript with more in it. -/
theorem map_item_record (w : Worker) (v : View) (clock : Clock) (f : Faults) (ms : List Message) :
    (w.record v clock f ms).map Deed.item = w.transcript v clock f ms := by
  rw [record, transcript]
  cases f.read .snapshot () with
  | mk outcome f =>
    cases outcome with
    | error e => rfl
    | ok _ =>
      simp only
      cases f.read .latestSeq () with
      | mk outcome f =>
        cases outcome with
        | error e => rfl
        | ok _ =>
          simp only [recordIn, transcriptIn, List.map_append, map_item_recordOf,
            Pass.map_item_deedsSince]

end Worker

end EventRelay
