import EventRelay.Proofs.Worker.Settling
import EventRelay.Proofs.Worker.Unhindered
/-!
# Setbacks

A read that fails holds up the piece of work it was made for, and no message is lost by it.  Where no view
can be had, the piece of work is the whole step: it does nothing but queue its messages, and a later step
handles them as if they had come with its own.  Behind a view it is the showing of new events, the turn of
a replay or the handoff of a subscription: what it has got done is kept, the rest of it is queued, and
everything else in the step goes on.  The outcome of the step is the error of the first read that failed.

Main statements: `step_of_unopened`, `shownNews`, `stuckTurn` and `stuckHandoff` (what each piece of work
leaves behind) and, made of these, `no_message_lost`.
-/

namespace EventRelay

namespace Worker

variable {v : View} {clock : Clock} {w : Worker} {p : Pass} {f : Faults} {n : Nat} {ms : List Message}
  {e : ReadError}

/-! ### Opening a view -/

/-- How the opening of a view fails, and the failures yet to come: the snapshot is taken, then its last seq
is read. -/
def opening (f : Faults) : Option ReadError × Faults :=
  match f.read .snapshot () with
  | (.error e, f) => (some e, f)
  | (.ok _, f) =>
    match f.read .latestSeq () with
    | (.error e, f) => (some e, f)
    | (.ok _, f) => (none, f)

theorem step_eq : w.step v clock f ms = match opening f with
    | (some e, f) => ⟨{ w with pending := w.pending ++ ms }, [], some e, f, []⟩
    | (none, f) => { w with pending := w.pending ++ ms }.stepIn v clock f := by
  rw [step, opening]
  rcases f.read .snapshot () with ⟨_ | _, f'⟩
  · rfl
  · simp only
    rcases f'.read .latestSeq () with ⟨_ | _, f''⟩
    · rfl
    · rfl

/-- Where its view cannot be had, a step does nothing but queue the messages. -/
theorem step_of_unopened (h : (opening f).1 = some e) :
    w.step v clock f ms = ⟨{ w with pending := w.pending ++ ms }, [], some e, (opening f).2, []⟩ := by
  rw [step_eq, ← Prod.eta (opening f), h]

theorem step_of_opened (h : (opening f).1 = none) :
    w.step v clock f ms = { w with pending := w.pending ++ ms }.stepIn v clock (opening f).2 := by
  rw [step_eq, ← Prod.eta (opening f), h]

/-- Messages that wait are handled before those that a step brings. -/
theorem step_of_waiting {ms' : List Message} :
    { w with pending := w.pending ++ ms }.step v clock f ms' = w.step v clock f (ms ++ ms') := by
  simp only [step, List.append_assoc]

/-! ### News -/

/-- How a message fails to be handled. -/
def newsError? (v : View) (p : Pass) : Message → Option ReadError
  | .dbChange => (p.faults.walk .eventsAfter (v.eventsAfter (p.worker.position.getD v.latestSeq))).2.1
  | _ => none

/-- The failures that messages meet, in order. -/
def newsErrors (v : View) (p : Pass) : List Message → List ReadError
  | [] => []
  | m :: rest => (newsError? v p m).toList ++ newsErrors v (handle v p m) rest

/-- News shows the monitors the events `passed`.  If the read fails, they are at the last of these, and
`more` waits for a step; if it does not, there is no more. -/
structure ShownNews (v : View) (p : Pass) (passed more : List (Nat × Event)) : Prop where
  events_eq : v.eventsAfter (p.worker.position.getD v.latestSeq) = passed ++ more
  complete : newsError? v p .dbChange = none → more = []
  worker_eq : (handle v p .dbChange).worker = { p.worker with
    monitors := (showAll p.worker.monitors passed).1
    position := some (if (newsError? v p .dbChange).isNone then v.latestSeq
      else lastSeq (p.worker.position.getD v.latestSeq) passed)
    pending := if (newsError? v p .dbChange).isNone then p.worker.pending else [.dbChange] }
  out_eq : (handle v p .dbChange).out = p.out ++ (showAll p.worker.monitors passed).2
  ahead : v.eventsAfter (lastSeq (p.worker.position.getD v.latestSeq) passed) = more

theorem shownNews : ∃ passed more, ShownNews v p passed more := by
  obtain ⟨passed, more, hafter, hpassed, hend⟩ :=
    walk_cases p.faults .eventsAfter (v.eventsAfter (p.worker.position.getD v.latestSeq))
  subst hpassed
  refine ⟨_, more, hafter, hend, ?worker, ?out, eventsAfter_lastSeq hafter⟩
  case worker =>
    rw [handle, dispatch, newsError?]
    rcases p.faults.walk .eventsAfter (v.eventsAfter (p.worker.position.getD v.latestSeq)) with
      ⟨events, _ | e, f'⟩
    · rfl
    · rfl
  case out =>
    rw [handle, dispatch]
    rcases p.faults.walk .eventsAfter (v.eventsAfter (p.worker.position.getD v.latestSeq)) with
      ⟨events, _ | e, f'⟩
    · rfl
    · rfl

/-- What a message does to the failure of a pass, and to what is left for the next step. -/
theorem handle_news (m : Message) :
    (handle v p m).failure = p.failure.or (newsError? v p m) ∧ (handle v p m).worker.pending
      = if (newsError? v p m).isNone then p.worker.pending else [.dbChange] := by
  cases m with
  | newSub sub =>
    rw [handle, addSub_eq rfl]
    exact ⟨Option.or_none.symm, rfl⟩
  | removeSub who => exact ⟨Option.or_none.symm, rfl⟩
  | closeConn conn => exact ⟨Option.or_none.symm, rfl⟩
  | dbChange =>
    rw [handle, dispatch, newsError?]
    rcases p.faults.walk .eventsAfter (v.eventsAfter (p.worker.position.getD v.latestSeq)) with
      ⟨events, _ | e, f'⟩
    · exact ⟨Option.or_none.symm, rfl⟩
    · exact ⟨rfl, rfl⟩

theorem handleAll_news : (ms.foldl (handle v) p).failure = p.failure.or (newsErrors v p ms).head?
    ∧ (ms.foldl (handle v) p).worker.pending
      = if (newsErrors v p ms).isEmpty then p.worker.pending else [.dbChange] := by
  induction ms generalizing p with
  | nil => exact ⟨Option.or_none.symm, rfl⟩
  | cons m rest ih =>
    obtain ⟨hfailure, hpending⟩ := handle_news (v := v) (p := p) m
    obtain ⟨hfailure', hpending'⟩ := ih (p := handle v p m)
    rw [List.foldl_cons, hfailure', hpending', hfailure, hpending, newsErrors]
    cases newsError? v p m with
    | none => simp
    | some e => simp

/-! ### Turns -/

/-- A turn that fails is a slice that fails; its replay is kept as far as it has come, and waits behind all
others. -/
theorem process_of_error {s : Scheduler} (h : (s.process v clock f).finished = .error e) :
    ∃ id rest r, s.ready = id :: rest ∧ s.replays.get? id = some r ∧ r.dead = false
      ∧ s.process v clock f = {
        scheduler := { s with
          replays := s.replays.insert id (r.process v clock f []).replay
          ready := rest ++ [id] }
        delivered := (r.deliveredSince (r.process v clock f []).replay).map fun seq =>
          (r.follower.sub.toRecipient, seq)
        finished := .error e
        faults := (r.process v clock f []).faults
        log := (r.process v clock f []).log } := by
  rw [Scheduler.process] at h ⊢
  split at h
  · cases h
  rename_i id rest hready
  simp only at h ⊢
  split at h
  · cases h
  rename_i r hget
  split at h
  · cases h
  rename_i hdead
  refine ⟨id, rest, r, hready, hget, Bool.eq_false_iff.2 hdead, ?_⟩
  simp only [if_neg hdead]
  split at h
  · cases h
    rfl
  · cases h
  · cases h

/-- How the replay that has its turn fails. -/
def turnError? (v : View) (clock : Clock) (p : Pass) : Option ReadError :=
  match (p.worker.queries.process v clock p.faults).finished with
  | .error e => some e
  | .ok _ => none

/-- The replay that stood first in the ready queue has got as far as it could, and stands last. -/
structure StuckTurn (v : View) (clock : Clock) (p : Pass) (id : Nat) (rest : List Nat) (r : Replay)
    (slice : Replay.Slice) : Prop where
  ready_eq : p.worker.queries.ready = id :: rest
  get?_eq : p.worker.queries.replays.get? id = some r
  dead_eq : r.dead = false
  slice_eq : slice = r.process v clock p.faults []
  worker_eq : (runQuery v clock p).worker = { p.worker with
    queries := { p.worker.queries with
      replays := p.worker.queries.replays.insert id slice.replay
      ready := rest ++ [id] } }
  out_eq : (runQuery v clock p).out
    = p.out ++ (r.deliveredSince slice.replay).map fun seq => .event r.follower.sub.toRecipient seq

theorem stuckTurn (h : turnError? v clock p ≠ none) :
    ∃ id rest r slice, StuckTurn v clock p id rest r slice := by
  rw [turnError?] at h
  split at h
  · rename_i e hend
    obtain ⟨id, rest, r, hready, hget, hdead, hturn⟩ := process_of_error hend
    refine ⟨id, rest, r, _, hready, hget, hdead, rfl, ?_, ?_⟩
    · rw [runQuery, hturn]
      rfl
    · rw [runQuery, hturn]
      simp only [Pass.fail, Pass.send, List.map_map]
      rfl
  · exact absurd rfl h

theorem failure_runQuery : (runQuery v clock p).failure = p.failure.or (turnError? v clock p) := by
  rw [runQuery, turnError?]
  simp only
  cases (p.worker.queries.process v clock p.faults).finished with
  | error e => rfl
  | ok finished =>
    cases finished with
    | none => exact Option.or_none.symm
    | some follower => exact Option.or_none.symm

/-! ### Handoffs -/

/-- How the handoff queue fails to go live. -/
def handoffError? (v : View) (n : Nat) (f : Faults) : List Follower → Option ReadError
  | [] => none
  | follower :: rest =>
    match catchUp v n f follower with
    | (_, _, some e, _) => some e
    | (_, _, none, f) => handoffError? v n f rest

/-- A subscription that cannot be caught up has been given a beginning of its events. -/
theorem catchUp_of_error {follower follower' : Follower} {out : List Delivery} {f' : Faults}
    (h : catchUp v n f follower = (follower', out, some e, f')) :
    ∃ passed more, v.eventsAfter follower.watermark = passed ++ more ∧ (∀ x ∈ passed, x.1 ≤ n)
      ∧ follower' = { follower with watermark := lastSeq follower.watermark passed }
      ∧ out = passedOn follower passed := by
  rw [catchUp] at h
  split at h
  · obtain ⟨walked, beyond, hwalk, hwalked, -⟩ :=
      walk_cases f .eventsAfter (v.eventsAfter follower.watermark)
    simp only [hwalked] at h
    obtain ⟨hfollower, hout, herror, -⟩ : _ ∧ _ ∧ _ ∧ _ := by simpa only [Prod.mk.injEq] using h
    refine ⟨walked.takeWhile fun x => x.1 ≤ n, (walked.dropWhile fun x => x.1 ≤ n) ++ beyond, ?_, ?_,
      ?_, hout.symm⟩
    · rw [← List.append_assoc, List.takeWhile_append_dropWhile, hwalk]
    · intro x hx
      exact of_decide_eq_true (List.all_eq_true.1 List.all_takeWhile x hx)
    · rw [← hfollower, herror]
  · cases h

/-- A subscription that is caught up makes way for the next, and is no hindrance to it. -/
theorem install_of_caught {follower follower' : Follower} {out : List Delivery} {f' : Faults}
    (h : catchUp v n p.faults follower = (follower', out, none, f')) :
    ∃ p' : Pass, p'.faults = f' ∧ p'.failure = p.failure
      ∧ ∀ rest, install v n p (follower :: rest) = install v n p' rest := by
  rcases hinstall : p.worker.monitors.install follower' with ⟨monitors, _ | refusal⟩
  · refine ⟨{ ({ p with faults := f' }).send out with worker := { p.worker with monitors } }, rfl, rfl,
      fun rest => ?_⟩
    rw [install, h]
    simp only [Pass.send, hinstall]
  · refine ⟨{ ({ p with faults := f' }).send out with worker := { p.worker with monitors } }.send
      [.tooManySubs follower'.sub.conn], rfl, rfl, fun rest => ?_⟩
    rw [install, h]
    simp only [Pass.send, hinstall]

/-- A subscription that is not stays at the head of the queue. -/
theorem install_of_error {follower follower' : Follower} {rest : List Follower} {out : List Delivery}
    {f' : Faults} (h : catchUp v n p.faults follower = (follower', out, some e, f')) :
    install v n p (follower :: rest) = ⟨{ p.worker with handoffs := follower' :: rest }, p.out ++ out,
      p.failure.or (some e), f', p.log⟩ := by
  rw [install, h]
  rfl

theorem failure_install {fs : List Follower} :
    (install v n p fs).failure = p.failure.or (handoffError? v n p.faults fs) := by
  induction fs generalizing p with
  | nil => exact Option.or_none.symm
  | cons follower rest ih =>
    rcases hcaught : catchUp v n p.faults follower with ⟨follower', out, _ | e, f'⟩
    · obtain ⟨p', hfaults, hfailure, hinstall⟩ := install_of_caught hcaught
      rw [hinstall, ih, hfailure, hfaults, handoffError?, hcaught]
    · rw [install_of_error hcaught, handoffError?, hcaught]

theorem handoffs_of_caught {fs : List Follower} (h : handoffError? v n p.faults fs = none) :
    (install v n p fs).worker.handoffs = [] := by
  induction fs generalizing p with
  | nil => rfl
  | cons follower rest ih =>
    rcases hcaught : catchUp v n p.faults follower with ⟨follower', out, _ | e, f'⟩
    · obtain ⟨p', hfaults, -, hinstall⟩ := install_of_caught hcaught
      rw [handoffError?, hcaught, ← hfaults] at h
      rw [hinstall, ih h]
    · rw [handoffError?, hcaught] at h
      cases h

/-- Those before `follower` have gone live.  It has been given the events `passed` and stands at the last
of them, at the head of the queue, and everything behind it waits as it did. -/
structure StuckHandoff (v : View) (n : Nat) (p : Pass) (fs before : List Follower) (follower : Follower)
    (rest : List Follower) (passed more : List (Nat × Event)) : Prop where
  queue_eq : fs = before ++ follower :: rest
  gone : handoffError? v n p.faults before = none
  events_eq : v.eventsAfter follower.watermark = passed ++ more
  le : ∀ x ∈ passed, x.1 ≤ n
  worker_eq : (install v n p fs).worker = { (install v n p before).worker with
    handoffs := { follower with watermark := lastSeq follower.watermark passed } :: rest }
  out_eq : (install v n p fs).out = (install v n p before).out ++ passedOn follower passed
  ahead : v.eventsAfter (lastSeq follower.watermark passed) = more

theorem stuckHandoff {fs : List Follower} (h : handoffError? v n p.faults fs ≠ none) :
    ∃ before follower rest passed more, StuckHandoff v n p fs before follower rest passed more := by
  induction fs generalizing p with
  | nil => exact absurd rfl h
  | cons head tail ih =>
    rcases hcaught : catchUp v n p.faults head with ⟨head', out, _ | e, f'⟩
    · obtain ⟨p', hfaults, -, hinstall⟩ := install_of_caught hcaught
      rw [handoffError?, hcaught, ← hfaults] at h
      obtain ⟨before, follower, rest, passed, more, hstuck⟩ := ih h
      refine ⟨head :: before, follower, rest, passed, more, congrArg (head :: ·) hstuck.queue_eq, ?_,
        hstuck.events_eq, hstuck.le, ?_, ?_, hstuck.ahead⟩
      · rw [handoffError?, hcaught, ← hfaults]
        exact hstuck.gone
      · rw [hinstall, hinstall, hstuck.worker_eq]
      · rw [hinstall, hinstall, hstuck.out_eq]
    · obtain ⟨passed, more, hafter, hle, rfl, rfl⟩ := catchUp_of_error hcaught
      refine ⟨[], head, tail, passed, more, rfl, rfl, hafter, hle, ?_, ?_, eventsAfter_lastSeq hafter⟩
      · rw [install_of_error hcaught]
        rfl
      · rw [install_of_error hcaught]
        rfl

/-! ### Steps -/

/-- The position of the monitors when the handoff queue goes live. -/
def goalOf (w : Worker) (v : View) (clock : Clock) (f : Faults) : Nat :=
  (w.served v clock f).worker.position.getD 0

/-- How the handoff queue of a step fails. -/
def queueError? (w : Worker) (v : View) (clock : Clock) (f : Faults) : Option ReadError :=
  handoffError? v (w.goalOf v clock f) (w.served v clock f).faults (w.served v clock f).worker.handoffs

/-- All failures of a step against a view, in order. -/
def setbacks (w : Worker) (v : View) (clock : Clock) (f : Faults) : List ReadError :=
  newsErrors v (w.begin v f) w.pending ++ (turnError? v clock (w.briefed v f)).toList
    ++ (w.queueError? v clock f).toList

theorem stepIn_served : w.stepIn v clock f
    = install v (w.goalOf v clock f) (w.served v clock f) (w.served v clock f).worker.handoffs := rfl

/-- The first failure is the outcome of the step. -/
theorem failure_stepIn : (w.stepIn v clock f).failure = (w.setbacks v clock f).head? := by
  have hnews : (w.briefed v f).failure = (newsErrors v (w.begin v f) w.pending).head? :=
    handleAll_news.1.trans Option.none_or
  have hqueue : handoffError? v (w.goalOf v clock f) (w.served v clock f).faults
    (w.served v clock f).worker.handoffs = w.queueError? v clock f := rfl
  rw [stepIn_served, failure_install, hqueue, served, failure_runQuery, hnews, setbacks,
    List.head?_append, List.head?_append, Option.head?_toList, Option.head?_toList]

theorem pending_stepIn : (w.stepIn v clock f).worker.pending
    = if (newsErrors v (w.begin v f) w.pending).isEmpty then [] else [.dbChange] :=
  rest_install.1.trans (rest_runQuery.1.trans handleAll_news.2)

theorem queries_stepIn_served : (w.stepIn v clock f).worker.queries = (w.served v clock f).worker.queries :=
  queries_install

/-- A step that has left nothing to do has met no failure. -/
theorem setbacks_of_isIdle (h : (w.stepIn v clock f).worker.isIdle = true) : w.setbacks v clock f = [] := by
  simp only [isIdle, Bool.and_eq_true, List.isEmpty_iff] at h
  obtain ⟨⟨hready, hpending⟩, hhandoffs⟩ := h
  have hnews : newsErrors v (w.begin v f) w.pending = [] := by
    rw [pending_stepIn] at hpending
    split at hpending
    · rename_i hempty
      exact List.isEmpty_iff.1 hempty
    · cases hpending
  have hturn : turnError? v clock (w.briefed v f) = none := by
    by_contra herror
    obtain ⟨id, rest, r, slice, hstuck⟩ := stuckTurn herror
    rw [queries_stepIn_served, served, hstuck.worker_eq] at hready
    simp [Scheduler.isIdle] at hready
  have hqueue : w.queueError? v clock f = none := by
    by_contra herror
    obtain ⟨before, follower, rest, passed, more, hstuck⟩ := stuckHandoff herror
    rw [stepIn_served, hstuck.worker_eq] at hhandoffs
    cases hhandoffs
  rw [setbacks, hnews, hturn, hqueue]
  rfl

/-- What a step against a view comes to, whatever reads fail in it. -/
structure Weathered (w : Worker) (v : View) (clock : Clock) (f : Faults) (p : Pass) : Prop where
  /-- The first failure is the outcome. -/
  failure_eq : p.failure = (w.setbacks v clock f).head?
  /-- A failure leaves something to do. -/
  busy : w.setbacks v clock f ≠ [] → p.worker.isIdle = false
  /-- Whichever walks over new events fail, all messages are handled and a replay has its turn, and they
  go the same way. -/
  unhindered : ∀ f', f'.withoutNews = f.withoutNews → Abreast (w.served v clock f) (w.served v clock f')
  /-- What fails after the messages has been no hindrance to them, the news among them included. -/
  briefed_eq : ∀ f', f'.eventsAfter.take (w.pending.count .dbChange)
      = f.eventsAfter.take (w.pending.count .dbChange) →
    ∃ f'', w.briefed v f' = { w.briefed v f with faults := f'' }
  /-- All news goes on from where the one before has come to, and comes as far as it can. -/
  news : ∀ before after, w.pending = before ++ .dbChange :: after →
    ∃ passed more, ShownNews v (before.foldl (handle v) (w.begin v f)) passed more
  /-- If some has failed, news waits for the next step, and no other message does. -/
  pending_eq : p.worker.pending
    = if (newsErrors v (w.begin v f) w.pending).isEmpty then [] else [.dbChange]
  position_eq : p.worker.position = (w.briefed v f).worker.position
  /-- A replay that fails waits for another turn, as far as it has come. -/
  turn : turnError? v clock (w.briefed v f) ≠ none →
    ∃ id rest r slice, StuckTurn v clock (w.briefed v f) id rest r slice
  queries_eq : p.worker.queries = (w.served v clock f).worker.queries
  /-- The handoff queue goes live up to the first subscription that fails, and that one stays at its
  head. -/
  handoff : w.queueError? v clock f ≠ none → ∃ before follower rest passed more,
    StuckHandoff v (w.goalOf v clock f) (w.served v clock f) (w.served v clock f).worker.handoffs before
      follower rest passed more
  handoffs_eq : w.queueError? v clock f = none → p.worker.handoffs = []
  end_eq : p = install v (w.goalOf v clock f) (w.served v clock f) (w.served v clock f).worker.handoffs

theorem weathered_stepIn : Weathered w v clock f (w.stepIn v clock f) where
  failure_eq := failure_stepIn
  busy h := Bool.eq_false_iff.2 fun hidle => h (setbacks_of_isIdle hidle)
  unhindered _ h := abreast_served h
  briefed_eq _ h := briefed_of_take h
  news _ _ _ := shownNews
  pending_eq := pending_stepIn
  position_eq := rest_install.2.trans rest_runQuery.2
  turn h := stuckTurn h
  queries_eq := queries_stepIn_served
  handoff h := stuckHandoff h
  handoffs_eq h := handoffs_of_caught h
  end_eq := rfl

/-- No message is lost, whatever reads fail.  Where no view can be had, a step sends nothing, and the next
one, whatever it is shown and told, is the step that would have been with the messages of both.  Behind a
view a failure is the outcome of the step, if it is the first; it holds up what it has hit and nothing else,
and that is queued, as far as it has come. -/
theorem no_message_lost (w : Worker) (v : View) (clock : Clock) (f : Faults) (m₁ : List Message) :
    (∀ e, (opening f).1 = some e →
        (w.step v clock f m₁).out = [] ∧ (w.step v clock f m₁).failure = some e
          ∧ ∀ v' clock' f' m₂,
            (w.step v clock f m₁).worker.step v' clock' f' m₂ = w.step v' clock' f' (m₁ ++ m₂))
      ∧ ((opening f).1 = none →
        Weathered { w with pending := w.pending ++ m₁ } v clock (opening f).2 (w.step v clock f m₁)) := by
  refine ⟨fun e h => ?_, fun h => ?_⟩
  · rw [step_of_unopened h]
    exact ⟨rfl, rfl, fun _ _ _ _ => step_of_waiting⟩
  · rw [step_of_opened h]
    exact weathered_stepIn

/-- The index cannot be read, and before that the new events. -/
def twoFaults : Faults :=
  (Faults.none.arm .eventsAfter 0 ⟨0, ⟨"disk I/O error"⟩⟩).arm .scanBack 0 ⟨0, ⟨"database is locked"⟩⟩

/-- The snapshot fails; then the new events and the turn do, with errors that differ, and the first of them
is the outcome. -/
theorem no_message_lost_start :
    ((start .default).step oneNote.view .unlimited (Faults.none.arm .snapshot 0 ⟨0, ⟨"disk I/O error"⟩⟩)
        [.newSub noteSub]).out = []
      ∧ ({ start .default with pending := [.newSub noteSub, .dbChange] } : Worker).setbacks oneNote.view
        .unlimited twoFaults = [⟨"disk I/O error"⟩, ⟨"database is locked"⟩]
      ∧ ((start .default).step oneNote.view .unlimited twoFaults [.newSub noteSub, .dbChange]).failure
        = some ⟨"disk I/O error"⟩
      ∧ ((start .default).step oneNote.view .unlimited twoFaults
        [.newSub noteSub, .dbChange]).worker.isIdle = false := by
  have hunopened := (no_message_lost (start .default) oneNote.view .unlimited
    (Faults.none.arm .snapshot 0 ⟨0, ⟨"disk I/O error"⟩⟩) [.newSub noteSub]).1 ⟨"disk I/O error"⟩ rfl
  have hweathered := (no_message_lost (start .default) oneNote.view .unlimited twoFaults
    [.newSub noteSub, .dbChange]).2 rfl
  have hsetbacks : ({ start .default with pending := [.newSub noteSub, .dbChange] } : Worker).setbacks
      oneNote.view .unlimited twoFaults = [⟨"disk I/O error"⟩, ⟨"database is locked"⟩] := by
    decide +kernel
  refine ⟨hunopened.1, hsetbacks, hweathered.failure_eq.trans (congrArg List.head? hsetbacks),
    hweathered.busy fun hnone => ?_⟩
  cases hsetbacks.symm.trans hnone

end Worker

end EventRelay
