import EventRelay.Worker
/-!
# The life of a subscription

The transcript of a step says what happens in it, item by item: the worker handles a message, or it
sends something.  The life of a subscription is what a transcript says about it since it was last taken
on: the last seq stored at that time, and the seqs it has been sent since, by replay and live.

Main statements: `sent_transcript` (a transcript leaves out nothing that is sent) and `lifeOf_sent`.
-/

namespace EventRelay

/-- What happens at a worker. -/
inductive Item where
  /-- A message is handled, against a view with that latest seq. -/
  | handled (m : Message) (latest : Nat)
  | sent (d : Delivery)
  deriving DecidableEq

namespace Item

def delivery? : Item → Option Delivery
  | .handled _ _ => none
  | .sent d => some d

end Item

/-! ### Transcripts -/

namespace Worker

/-- What has been sent between two states of a pass. -/
def Pass.since (p p' : Pass) : List Item := (p'.out.drop p.out.length).map .sent

/-- What happens while messages are handled. -/
def transcriptOf (v : View) (p : Pass) : List Message → List Item
  | [] => []
  | m :: rest =>
    .handled m v.latestSeq :: (p.since (handle v p m) ++ transcriptOf v (handle v p m) rest)

/-- The pass that a step against a view begins with. -/
def begin (w : Worker) (v : View) (f : Faults) : Pass :=
  ⟨{ w with pending := [], position := some (w.positionIn v) }, [], none, f, []⟩

/-- The pass of a step against a view once all messages have been handled. -/
def briefed (w : Worker) (v : View) (f : Faults) : Pass := w.pending.foldl (handle v) (w.begin v f)

/-- What happens in a step against a view. -/
def transcriptIn (w : Worker) (v : View) (clock : Clock) (f : Faults) : List Item :=
  transcriptOf v (w.begin v f) w.pending ++ (w.briefed v f).since (w.stepIn v clock f)

/-- What happens in a step. -/
def transcript (w : Worker) (v : View) (clock : Clock) (f : Faults) (messages : List Message) :
    List Item :=
  let w := { w with pending := w.pending ++ messages }
  match f.read .snapshot () with
  | (.error _, _) => []
  | (.ok _, f) =>
    match f.read .latestSeq () with
    | (.error _, _) => []
    | (.ok _, f) => w.transcriptIn v clock f

theorem Pass.since_eq {p p' : Pass} {ds : List Delivery} (h : p'.out = p.out ++ ds) :
    p.since p' = ds.map .sent := by
  rw [since, h, List.drop_left]

theorem Pass.delivery?_since {p p' : Pass} (h : p.out <+: p'.out) :
    p.out ++ (p.since p').filterMap Item.delivery? = p'.out := by
  obtain ⟨ds, hds⟩ := h
  rw [since_eq hds.symm, List.filterMap_map, ← hds]
  congr 1
  exact List.filterMap_some

/-- Nothing that has been sent is taken back. -/
theorem out_handle (v : View) (p : Pass) (m : Message) : p.out <+: (handle v p m).out := by
  cases m with
  | newSub sub =>
    simp only [handle, addSub]
    split
    · exact List.prefix_refl _
    · exact List.prefix_append _ _
  | removeSub who => exact List.prefix_refl _
  | closeConn conn => exact List.prefix_refl _
  | dbChange =>
    simp only [handle, dispatch]
    split
    · exact List.prefix_append _ _
    · exact List.prefix_append _ _

theorem out_runQuery (v : View) (clock : Clock) (p : Pass) : p.out <+: (runQuery v clock p).out := by
  simp only [runQuery]
  split
  · exact List.prefix_append _ _
  · exact List.prefix_append _ _
  · exact (List.prefix_append _ _).trans (List.prefix_append _ _)

theorem out_install (v : View) (position : Nat) (p : Pass) (fs : List Follower) :
    p.out <+: (install v position p fs).out := by
  induction fs generalizing p with
  | nil => exact List.prefix_refl _
  | cons follower rest ih =>
    simp only [install]
    split
    · exact List.prefix_append _ _
    · refine List.IsPrefix.trans ?_ (ih _)
      split
      · exact List.prefix_append _ _
      · exact (List.prefix_append _ _).trans (List.prefix_append _ _)

theorem sent_transcriptOf (v : View) (p : Pass) (ms : List Message) :
    p.out ++ (transcriptOf v p ms).filterMap Item.delivery? = (ms.foldl (handle v) p).out := by
  induction ms generalizing p with
  | nil => exact List.append_nil _
  | cons m rest ih =>
    rw [transcriptOf, List.filterMap_cons_none rfl, List.filterMap_append, ← List.append_assoc,
      Pass.delivery?_since (out_handle v p m), ih, List.foldl_cons]

theorem sent_transcriptIn (w : Worker) (v : View) (clock : Clock) (f : Faults) :
    (w.transcriptIn v clock f).filterMap Item.delivery? = (w.stepIn v clock f).out := by
  have hmessages : (transcriptOf v (w.begin v f) w.pending).filterMap Item.delivery?
      = (w.briefed v f).out := sent_transcriptOf v (w.begin v f) w.pending
  rw [transcriptIn, List.filterMap_append, hmessages]
  exact Pass.delivery?_since ((out_runQuery v clock _).trans (out_install v _ _ _))

/-- A transcript leaves out nothing that is sent. -/
theorem sent_transcript (w : Worker) (v : View) (clock : Clock) (f : Faults) (ms : List Message) :
    (w.transcript v clock f ms).filterMap Item.delivery? = (w.step v clock f ms).out := by
  rw [transcript, step]
  cases f.read .snapshot () with
  | mk outcome f =>
    cases outcome with
    | error e => rfl
    | ok _ =>
      simp only
      cases f.read .latestSeq () with
      | mk outcome f =>
        cases outcome with
        | error e => rfl
        | ok _ => exact sent_transcriptIn _ v clock f

end Worker

/-! ### Lives -/

namespace Delivery

/-- The seqs that a delivery brings a recipient by replay. -/
def replayedTo (who : Recipient) : Delivery → List Nat
  | .event x seq => if x = who then [seq] else []
  | _ => []

/-- The seqs that a delivery brings a recipient live. -/
def liveTo (who : Recipient) : Delivery → List Nat
  | .live seq whos => List.replicate (whos.count who) seq
  | _ => []

end Delivery

/-- What a subscription has been sent since it was taken on. -/
structure Life where
  sub : Subscription
  /-- The last seq stored when it was taken on. -/
  watermark : Nat
  replayed : List Nat
  live : List Nat
  deriving DecidableEq

namespace Life

/-- The life of a subscription that is taken on. -/
def start (sub : Subscription) (watermark : Nat) : Life := ⟨sub, watermark, [], []⟩

/-- A life after some deliveries. -/
def after (life : Life) (who : Recipient) (ds : List Delivery) : Life :=
  { life with
    replayed := life.replayed ++ ds.flatMap (·.replayedTo who)
    live := life.live ++ ds.flatMap (·.liveTo who) }

/-- What an item does to the life of a recipient. -/
def step (who : Recipient) (life : Option Life) : Item → Option Life
  | .handled (.newSub sub) latest => if sub.toRecipient = who then some (start sub latest) else life
  | .handled _ _ => life
  | .sent d => life.map (·.after who [d])

end Life

/-- The life of a recipient, if it has been taken on. -/
def lifeOf (who : Recipient) (items : List Item) : Option Life := items.foldl (Life.step who) none

theorem Life.after_nil {life : Life} {who : Recipient} : life.after who [] = life := by
  rw [after, List.flatMap_nil, List.flatMap_nil, List.append_nil, List.append_nil]

theorem Life.after_append {life : Life} {who : Recipient} {ds ds' : List Delivery} :
    life.after who (ds ++ ds') = (life.after who ds).after who ds' := by
  simp only [after, List.flatMap_append, List.append_assoc]

section

variable {who : Recipient} {items : List Item}

theorem lifeOf_sent {ds : List Delivery} :
    lifeOf who (items ++ ds.map .sent) = (lifeOf who items).map (·.after who ds) := by
  rw [lifeOf, List.foldl_append, ← lifeOf]
  -- the life so far may be any, or the induction hypothesis would not fit
  generalize lifeOf who items = life
  induction ds generalizing life with
  | nil =>
    have hid : (fun life : Life => life.after who []) = id := funext fun _ => Life.after_nil
    rw [hid, Option.map_id]
    rfl
  | cons d rest ih =>
    rw [List.map_cons, List.foldl_cons, ih]
    show (life.map (·.after who [d])).map _ = _
    rw [Option.map_map]
    congr 1
    funext life
    exact Life.after_append.symm

/-- Deliveries that bring a recipient nothing do nothing to its life. -/
theorem lifeOf_sent_of_quiet {ds : List Delivery}
    (h : ∀ d ∈ ds, d.replayedTo who = [] ∧ d.liveTo who = []) :
    lifeOf who (items ++ ds.map .sent) = lifeOf who items := by
  have hreplayed : ds.flatMap (·.replayedTo who) = [] :=
    List.flatMap_eq_nil_iff.2 fun d hd => (h d hd).1
  have hlive : ds.flatMap (·.liveTo who) = [] := List.flatMap_eq_nil_iff.2 fun d hd => (h d hd).2
  have hafter : (fun life : Life => life.after who ds) = id := by
    funext life
    rw [Life.after, hreplayed, hlive, List.append_nil, List.append_nil]
    rfl
  rw [lifeOf_sent, hafter, Option.map_id, id]

/-- Taking a subscription on begins a new life. -/
theorem lifeOf_newSub {sub : Subscription} {latest : Nat} :
    lifeOf who (items ++ [.handled (.newSub sub) latest]) =
      if sub.toRecipient = who then some (Life.start sub latest) else lifeOf who items := by
  rw [lifeOf, List.foldl_append]
  rfl

/-- No other message does anything to a life. -/
theorem lifeOf_handled {m : Message} {latest : Nat} (h : ∀ sub, m ≠ .newSub sub) :
    lifeOf who (items ++ [.handled m latest]) = lifeOf who items := by
  rw [lifeOf, List.foldl_append]
  cases m with
  | newSub sub => exact absurd rfl (h sub)
  | removeSub who => rfl
  | closeConn conn => rfl
  | dbChange => rfl

end

end EventRelay
