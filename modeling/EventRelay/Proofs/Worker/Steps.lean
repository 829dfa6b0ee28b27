import EventRelay.Proofs.Worker.Pieces
import EventRelay.Proofs.Worker.Record
/-!
# From pieces of work to steps

A step is made of pieces of work: it handles messages, shows the monitors events, gives a replay a turn,
catches subscriptions up and lets them go live.  What each piece upholds, of the worker, the position of
its monitors and the record so far, a step upholds, whatever reads fail and whatever its clock says.

Main statements: `Upheld.handle`, `Upheld.runQuery`, `Upheld.install` and, made of these, `Upheld.step`.
-/

namespace EventRelay

namespace Worker

/-- What every piece of work upholds, of a worker, the position of its monitors and its record. -/
structure Upheld (v : View) (Inv : Worker → Nat → List Deed → Prop) : Prop where
  position : ∀ {w n es}, Inv w n es → w.position = some n
  queries : ∀ {w n es}, Inv w n es → w.queries.Wf
  withPending : ∀ {w n es}, Inv w n es → ∀ pending, Inv { w with pending } n es
  /-- A subscription may be taken on once its name has been cleared. -/
  newSub : ∀ {w n es}, Inv w n es → ∀ sub live,
    live = (w.removeSub sub.toRecipient).liveSubs sub.conn →
      Inv { w.removeSub sub.toRecipient with queries := (w.queries.add sub v.latestSeq live).1 } n
        (es ++ [.handled (.newSub sub) v.latestSeq (w.queries.add sub v.latestSeq live).2.isNone])
  removeSub : ∀ {w n es}, Inv w n es → ∀ who,
    Inv (w.removeSub who) n (es ++ [.handled (.removeSub who) v.latestSeq false])
  closeConn : ∀ {w n es}, Inv w n es → ∀ conn,
    Inv (w.closeConn conn) n (es ++ [.handled (.closeConn conn) v.latestSeq false])
  dbChange : ∀ {w n es}, Inv w n es → Inv w n (es ++ [.handled .dbChange v.latestSeq false])
  notice : ∀ {w n es}, Inv w n es → ∀ conn, Inv w n (es ++ [.sent (.tooManySubs conn)])
  /-- The monitors are shown the next event. -/
  shown : ∀ {w n es}, Inv w n es → ∀ {seq e rest}, v.eventsAfter n = (seq, e) :: rest →
    Inv { w with monitors := (w.monitors.dispatch seq e).1, position := some seq } seq
      (es ++ (Worker.shown seq (w.monitors.dispatch seq e).2).map .sent)
  /-- Where there are no more events, the monitors are at the end. -/
  advance : ∀ {w n es}, Inv w n es → v.eventsAfter n = [] →
    Inv { w with position := some v.latestSeq } v.latestSeq es
  /-- A turn that nobody notices. -/
  idle : ∀ {w n es}, Inv w n es → ∀ {queries : Scheduler}, queries.Wf →
    queries.config = w.queries.config → (∀ x, queries.serving x = w.queries.serving x) →
      Inv { w with queries } n es
  pause : ∀ {w n es}, Inv w n es → ∀ {who r slice turn}, turn.scheduler.Wf →
    turn.scheduler.config = w.queries.config →
    Scheduler.Turned w.queries v who r slice turn → turn.scheduler.serving who = some slice.replay →
      Inv { w with queries := turn.scheduler } n
        (es ++ ((r.deliveredSince slice.replay).map fun seq => Delivery.event who seq).map .sent)
  complete : ∀ {w n es}, Inv w n es → ∀ {who r slice turn}, turn.scheduler.Wf →
    turn.scheduler.config = w.queries.config →
    Scheduler.Turned w.queries v who r slice turn → slice.outcome = .ok true →
      turn.scheduler.serving who = none →
      Inv { w with
          queries := turn.scheduler
          handoffs := w.handoffs ++ [slice.replay.follower] } n
        (es ++ ((r.deliveredSince slice.replay).map (fun seq => Delivery.event who seq)
          ++ [Delivery.eose slice.replay.follower.sub.toRecipient]).map .sent)
  catchUp : ∀ {w : Worker} {follower rest n es}, Inv { w with handoffs := follower :: rest } n es →
    ∀ f, Inv { w with handoffs := (Worker.catchUp v n f follower).1 :: rest } n
      (es ++ (Worker.catchUp v n f follower).2.1.map .sent)
  goLive : ∀ {w : Worker} {follower rest n es}, Inv { w with handoffs := follower :: rest } n es →
    n ≤ follower.watermark →
      Inv { w with monitors := (w.monitors.install follower).1, handoffs := rest } n es

variable {v : View} {clock : Clock} {Inv : Worker → Nat → List Deed → Prop} {w : Worker}
  {es : List Deed} {n : Nat}

/-! ### Messages -/

theorem Upheld.addSub (h : Upheld v Inv) {p : Pass} (hp : Inv p.worker n es) (sub : Subscription) :
    ∃ ds, (Worker.addSub v p sub).out = p.out ++ ds ∧ Inv (Worker.addSub v p sub).worker n
      (es ++ .handled (.newSub sub) v.latestSeq (takesOn v p (.newSub sub)) :: ds.map .sent) := by
  have hnew := h.newSub hp sub (({ p.worker with
    monitors := p.worker.monitors.remove sub.toRecipient }.dropHandoff sub.toRecipient).liveSubs sub.conn)
    rfl
  rw [Worker.addSub]
  simp only
  split
  · exact ⟨[], (List.append_nil _).symm, hnew⟩
  · refine ⟨[.tooManySubs sub.conn], rfl, ?_⟩
    rw [List.append_cons]
    exact h.notice hnew sub.conn

/-- The monitors are shown a beginning of the events that they have not been shown. -/
theorem Upheld.showAll (h : Upheld v Inv) {events more : List (Nat × Event)} (hw : Inv w n es)
    (hafter : v.eventsAfter n = events ++ more) :
    Inv { w with
        monitors := (Worker.showAll w.monitors events).1
        position := some (lastSeq n events) } (lastSeq n events)
      (es ++ (Worker.showAll w.monitors events).2.map .sent) := by
  -- the position goes along with the events, and what is left of them is what comes after it
  induction events generalizing w n es with
  | nil =>
    have hnow : some (lastSeq n []) = w.position := (h.position hw).symm
    simp only [Worker.showAll, List.map_nil, List.append_nil, hnow]
    exact hw
  | cons x rest ih =>
    obtain ⟨seq, e⟩ := x
    have hrest := ih (h.shown hw hafter) (View.eventsAfter_of_cons hafter)
    rw [lastSeq_cons, showAll_cons, List.map_append, ← List.append_assoc]
    exact hrest

theorem Upheld.dispatch (h : Upheld v Inv) {p : Pass} (hp : Inv p.worker n es) :
    ∃ ds n', (Worker.dispatch v p).out = p.out ++ ds
      ∧ Inv (Worker.dispatch v p).worker n' (es ++ ds.map .sent) := by
  obtain ⟨passed, more, hafter, hpassed, hend⟩ :=
    walk_cases p.faults .eventsAfter (v.eventsAfter (p.worker.position.getD v.latestSeq))
  have hposition : p.worker.position.getD v.latestSeq = n := by rw [h.position hp, Option.getD_some]
  rw [hposition] at hafter
  have hshown := h.showAll hp hafter
  rw [Worker.dispatch]
  simp only [hposition] at hpassed hend ⊢
  rw [hpassed]
  cases herror : (p.faults.walk .eventsAfter (v.eventsAfter n)).2.1 with
  | none =>
    -- the walk came to the end, so nothing is missed when the position jumps to the last seq
    have hnone : v.eventsAfter (lastSeq n passed) = [] :=
      (eventsAfter_lastSeq hafter).trans (hend herror)
    exact ⟨(Worker.showAll p.worker.monitors passed).2, v.latestSeq, rfl, h.advance hshown hnone⟩
  | some e =>
    exact ⟨(Worker.showAll p.worker.monitors passed).2, lastSeq n passed, rfl,
      h.withPending hshown [.dbChange]⟩

theorem Upheld.handle (h : Upheld v Inv) {p : Pass} (hp : Inv p.worker n es) (m : Message) :
    ∃ ds n', (Worker.handle v p m).out = p.out ++ ds ∧ Inv (Worker.handle v p m).worker n'
      (es ++ .handled m v.latestSeq (takesOn v p m) :: ds.map .sent) := by
  cases m with
  | newSub sub =>
    obtain ⟨ds, hout, hsub⟩ := h.addSub hp sub
    exact ⟨ds, n, hout, hsub⟩
  | removeSub who => exact ⟨[], n, (List.append_nil _).symm, h.removeSub hp who⟩
  | closeConn conn => exact ⟨[], n, (List.append_nil _).symm, h.closeConn hp conn⟩
  | dbChange =>
    obtain ⟨ds, n', hout, hshown⟩ := h.dispatch (h.dbChange hp)
    refine ⟨ds, n', hout, ?_⟩
    rw [List.append_cons]
    exact hshown

theorem Upheld.handleAll (h : Upheld v Inv) {ms : List Message} {p : Pass} (hp : Inv p.worker n es) :
    ∃ n', Inv (ms.foldl (Worker.handle v) p).worker n' (es ++ recordOf v p ms) := by
  induction ms generalizing p n es with
  | nil =>
    refine ⟨n, ?_⟩
    rw [recordOf, List.append_nil]
    exact hp
  | cons m rest ih =>
    obtain ⟨ds, n', hout, hm⟩ := h.handle hp m
    obtain ⟨n'', hrest⟩ := ih hm
    refine ⟨n'', ?_⟩
    rw [recordOf, Pass.deedsSince_eq hout, ← List.cons_append, ← List.append_assoc]
    exact hrest

/-! ### Replays and handoffs -/

theorem Upheld.runQuery (h : Upheld v Inv) {p : Pass} (hp : Inv p.worker n es) :
    ∃ ds, (Worker.runQuery v clock p).out = p.out ++ ds
      ∧ Inv (Worker.runQuery v clock p).worker n (es ++ ds.map .sent) := by
  obtain ⟨hwf, hquiet | ⟨who, r, slice, hturned⟩⟩ := (h.queries hp).process_cases v clock p.faults
  · obtain ⟨hdelivered, hfinished, hserving⟩ := hquiet
    refine ⟨[], ?_, ?_⟩
    · simp only [Worker.runQuery, hdelivered, hfinished]
      rfl
    · simp only [Worker.runQuery, hdelivered, hfinished, List.map_nil, List.append_nil]
      exact h.idle hp hwf Scheduler.config_process hserving
  · have hout := out_of_turned hturned
    rcases hturned.finished with ⟨hend, hfinished, hgone⟩ | ⟨hfinished, hstays⟩
    · refine ⟨(r.deliveredSince slice.replay).map (fun seq => Delivery.event who seq)
        ++ [.eose slice.replay.follower.sub.toRecipient], ?_, ?_⟩
      · simp only [Worker.runQuery, hout, hfinished, Pass.send, List.append_assoc]
      · simp only [Worker.runQuery, hout, hfinished, Pass.send]
        exact h.complete hp hwf Scheduler.config_process hturned hend hgone
    · have hpause := h.pause hp hwf Scheduler.config_process hturned hstays
      refine ⟨(r.deliveredSince slice.replay).map (fun seq => Delivery.event who seq), ?_⟩
      simp only [Worker.runQuery, hout]
      split
      · exact ⟨rfl, hpause⟩
      · exact ⟨rfl, hpause⟩
      · rename_i follower hfollower
        exact absurd hfollower (hfinished follower)

/-- The handoff queue goes live as far as it can. -/
theorem Upheld.install (h : Upheld v Inv) {fs : List Follower} {p : Pass}
    (hp : Inv { p.worker with handoffs := fs } n es) :
    ∃ ds, (Worker.install v n p fs).out = p.out ++ ds
      ∧ Inv (Worker.install v n p fs).worker n (es ++ ds.map .sent) := by
  induction fs generalizing p es with
  | nil =>
    refine ⟨[], (List.append_nil _).symm, ?_⟩
    rw [List.map_nil, List.append_nil]
    exact hp
  | cons follower rest ih =>
    have hcaught := h.catchUp hp p.faults
    obtain ⟨passed, hc⟩ := caughtUp v n p.faults follower
    rw [Worker.install]
    cases herror : (Worker.catchUp v n p.faults follower).2.2.1 with
    | some e =>
      simp only [herror]
      exact ⟨_, rfl, hcaught⟩
    | none =>
      -- the head is caught up and goes live; the rest of the queue is the induction hypothesis
      have hlive := h.goLive hcaught (hc.complete herror)
      have hgo : ∀ (p' : Pass) (ds : List Delivery), p'.out = p.out ++ ds →
          Inv { p'.worker with handoffs := rest } n (es ++ ds.map .sent) →
          ∃ ds, (Worker.install v n p' rest).out = p.out ++ ds
            ∧ Inv (Worker.install v n p' rest).worker n (es ++ ds.map .sent) := by
        intro p' ds hout hp'
        obtain ⟨ds', hout', hend⟩ := ih hp'
        refine ⟨ds ++ ds', ?_, ?_⟩
        · rw [hout', hout, List.append_assoc]
        · rw [List.map_append, ← List.append_assoc]
          exact hend
      simp only [herror]
      split
      · exact hgo _ _ rfl hlive
      · refine hgo _ _ (List.append_assoc _ _ _) ?_
        rw [List.map_append, ← List.append_assoc]
        exact h.notice hlive _

/-! ### Steps -/

/-- A step ends with the handoff queue. -/
theorem stepIn_eq {f : Faults}
    (hposition : (Worker.runQuery v clock (w.briefed v f)).worker.position = some n) :
    w.stepIn v clock f = Worker.install v n (Worker.runQuery v clock (w.briefed v f))
      (Worker.runQuery v clock (w.briefed v f)).worker.handoffs := by
  have hnow : (Worker.runQuery v clock (w.briefed v f)).worker.position.getD 0 = n := by
    rw [hposition, Option.getD_some]
  rw [← hnow]
  rfl

theorem Upheld.stepIn (h : Upheld v Inv) {f : Faults} (hbegin : Inv (w.begin v f).worker n es) :
    ∃ n', Inv (w.stepIn v clock f).worker n' (es ++ w.recordIn v clock f) := by
  obtain ⟨n', hall⟩ := h.handleAll hbegin
  have hbriefed : Inv (w.briefed v f).worker n' (es ++ recordOf v (w.begin v f) w.pending) := hall
  obtain ⟨ds, hout, hserved⟩ := h.runQuery hbriefed
  obtain ⟨ds', hout', hinstalled⟩ := h.install hserved
  have hstep := stepIn_eq (h.position hserved)
  have hsent : (w.briefed v f).deedsSince (w.stepIn v clock f) = (ds ++ ds').map .sent := by
    apply Pass.deedsSince_eq
    rw [hstep, hout', hout, List.append_assoc]
  refine ⟨n', ?_⟩
  rw [recordIn, hsent, hstep, List.map_append, ← List.append_assoc, ← List.append_assoc]
  exact hinstalled

/-- Where its view cannot be had, a step does nothing but queue the messages. -/
theorem Upheld.step (h : Upheld v Inv) (clock : Clock) (f : Faults) (messages : List Message)
    (hbegin : ∀ f, ∃ n, Inv ({ w with pending := w.pending ++ messages }.begin v f).worker n es) :
    ((w.step v clock f messages).worker = { w with pending := w.pending ++ messages }
        ∧ w.record v clock f messages = [])
      ∨ ∃ n, Inv (w.step v clock f messages).worker n (es ++ w.record v clock f messages) := by
  rw [Worker.step, record]
  cases f.read .snapshot () with
  | mk outcome f =>
    cases outcome with
    | error e => exact .inl ⟨rfl, rfl⟩
    | ok _ =>
      simp only
      cases f.read .latestSeq () with
      | mk outcome f =>
        cases outcome with
        | error e => exact .inl ⟨rfl, rfl⟩
        | ok _ =>
          obtain ⟨n, hn⟩ := hbegin f
          exact .inr (h.stepIn hn)

/-- A worker that knows its position goes on from there. -/
theorem begin_of_position {f : Faults} (hposition : w.position = some n) (hle : n ≤ v.latestSeq) :
    (w.begin v f).worker = { w with pending := [] } := by
  have hsame : some (w.positionIn v) = w.position := by
    rw [positionIn, hposition]
    simp only [Nat.min_eq_left hle]
  show ({ w with pending := [], position := some (w.positionIn v) } : Worker) = _
  rw [hsame]

end Worker

end EventRelay
