import EventRelay.Proofs.Monitors.Books
import EventRelay.Proofs.Scheduler.Failures
import EventRelay.Proofs.Worker.Steps
/-!
# What failing walks over new events leave alone

What the monitors have been shown decides about no message, and a turn makes no walk over new events.  So
steps in which different walks fail handle messages the same way, and have the same replays, handoffs and
subscriptions after them.  And each walk has an outcome of its own, so that one that fails later does
nothing to what comes before.

Main statements: `abreast_dispatch` (nothing but live deliveries tells whether the monitors have been shown
events), `abreast_served` (messages and turn of a step) and `briefed_of_take` (messages, news included).
-/

namespace EventRelay

/-! ### Who is followed -/

namespace Monitors

variable {m m' : Monitors} {who : Recipient}

/-- The subscription that is followed under a name. -/
def followed? (m : Monitors) (who : Recipient) : Option Subscription :=
  (m.get? who).map fun monitor => monitor.follower.sub

/-- Monitors that follow the same subscriptions have as many of a connection. -/
theorem connSubs_of_followed (h : ∀ who, m'.followed? who = m.followed? who) (conn : ConnId) :
    m'.connSubs conn = m.connSubs conn := by
  rw [connSubs_eq, connSubs_eq]
  refine ByRecipient.size_congr (fun who => ?_) conn
  have hsome := congrArg Option.isSome (h who)
  rw [followed?, followed?, Option.isSome_map, Option.isSome_map] at hsome
  exact hsome

theorem followed_remove {x : Recipient} :
    (m.remove who).followed? x = if x = who then none else m.followed? x := by
  rw [followed?, get?_remove, followed?]
  split
  · rfl
  · rfl

theorem followed_closeConn {conn : ConnId} :
    (m.closeConn conn).followed? who = if who.conn = conn then none else m.followed? who := by
  rw [followed?, get?_closeConn, followed?]
  split
  · rfl
  · rfl

theorem followed_dispatch {seq : Nat} {e : Event} :
    (m.dispatch seq e).1.followed? who = m.followed? who := by
  have halike : Alike m (m.dispatch seq e).1 := alike_dispatch
  obtain ⟨g, hg, hsame⟩ := halike.get?_eq who
  rw [followed?, hg, Option.map_map, followed?]
  congr 1
  funext monitor
  exact (hsame monitor).2

end Monitors

/-! ### Messages -/

/-- Whether a delivery is that of a new event. -/
def Delivery.isLive : Delivery → Bool
  | .live _ _ => true
  | _ => false

namespace Worker

variable {v : View} {clock : Clock} {p q r : Pass} {w : Worker} {f f' : Faults}

/-- Passes with the same replays, handoffs and subscriptions, that have sent the same but for new
events, and have the same failures before them but for those of walks over new events. -/
structure Abreast (p q : Pass) : Prop where
  queries_eq : q.worker.queries = p.worker.queries
  handoffs_eq : q.worker.handoffs = p.worker.handoffs
  followed_eq : ∀ who, q.worker.monitors.followed? who = p.worker.monitors.followed? who
  out_eq : q.out.filter (!·.isLive) = p.out.filter (!·.isLive)
  log_eq : q.log = p.log
  faults_eq : q.faults.withoutNews = p.faults.withoutNews

theorem Abreast.symm (h : Abreast p q) : Abreast q p :=
  ⟨h.queries_eq.symm, h.handoffs_eq.symm, fun who => (h.followed_eq who).symm, h.out_eq.symm,
    h.log_eq.symm, h.faults_eq.symm⟩

theorem Abreast.trans (h : Abreast p q) (h' : Abreast q r) : Abreast p r :=
  ⟨h'.queries_eq.trans h.queries_eq, h'.handoffs_eq.trans h.handoffs_eq,
    fun who => (h'.followed_eq who).trans (h.followed_eq who), h'.out_eq.trans h.out_eq,
    h'.log_eq.trans h.log_eq, h'.faults_eq.trans h.faults_eq⟩

theorem followed_showAll {m : Monitors} {who : Recipient} {events : List (Nat × Event)} :
    (showAll m events).1.followed? who = m.followed? who := by
  induction events generalizing m with
  | nil => rfl
  | cons x rest ih =>
    obtain ⟨seq, e⟩ := x
    rw [showAll_cons]
    exact ih.trans Monitors.followed_dispatch

theorem isLive_showAll {m : Monitors} {events : List (Nat × Event)} :
    (showAll m events).2.filter (!·.isLive) = [] := by
  induction events generalizing m with
  | nil => rfl
  | cons x rest ih =>
    obtain ⟨seq, e⟩ := x
    rw [showAll_cons, List.filter_append, ih, List.append_nil, shown]
    split
    · rfl
    · rfl

/-- Nothing but live deliveries tells whether the monitors have been shown events. -/
theorem abreast_dispatch : Abreast p (dispatch v p) := by
  have hout : ∀ events, (p.out ++ (showAll p.worker.monitors events).2).filter (!·.isLive)
      = p.out.filter (!·.isLive) := by
    intro events
    rw [List.filter_append, isLive_showAll, List.append_nil]
  have hfaults := p.faults.walk_withoutNews (v.eventsAfter (p.worker.position.getD v.latestSeq))
  rw [dispatch]
  simp only
  split
  · exact ⟨rfl, rfl, fun _ => followed_showAll, hout _, rfl, hfaults⟩
  · exact ⟨rfl, rfl, fun _ => followed_showAll, hout _, rfl, hfaults⟩

/-- A worker that neither follows a subscription nor has it in the handoff queue. -/
def cleared (w : Worker) (who : Recipient) : Worker :=
  { w with monitors := w.monitors.remove who }.dropHandoff who

/-- Taking a subscription on is left to the scheduler, which is told how many its connection has past
their replay. -/
theorem addSub_eq {sub : Subscription} {added : Scheduler × Option Refusal}
    (h : (p.worker.cleared sub.toRecipient).queries.add sub v.latestSeq
      ((p.worker.cleared sub.toRecipient).liveSubs sub.conn) = added) :
    addSub v p sub = { p with
      worker := { p.worker.cleared sub.toRecipient with queries := added.1 }
      out := p.out ++ if added.2.isSome then [.tooManySubs sub.conn] else [] } := by
  subst h
  rw [addSub]
  simp only [cleared]
  split
  · rename_i hnone
    simp [hnone]
  · rename_i hsome
    simp [hsome, Pass.send]

theorem Abreast.addSub (h : Abreast p q) (sub : Subscription) :
    Abreast (addSub v p sub) (addSub v q sub) := by
  have hfollowed : ∀ x, (q.worker.cleared sub.toRecipient).monitors.followed? x
      = (p.worker.cleared sub.toRecipient).monitors.followed? x := by
    intro x
    refine Monitors.followed_remove.trans (Eq.trans ?_ Monitors.followed_remove.symm)
    rw [h.followed_eq]
  have hhandoffs : (q.worker.cleared sub.toRecipient).handoffs
      = (p.worker.cleared sub.toRecipient).handoffs := congrArg (List.filter _) h.handoffs_eq
  -- so the connection has as many subscriptions past their replay in one pass as in the other
  have hlive : (q.worker.cleared sub.toRecipient).liveSubs sub.conn
      = (p.worker.cleared sub.toRecipient).liveSubs sub.conn := by
    rw [liveSubs, liveSubs, Monitors.connSubs_of_followed hfollowed, hhandoffs]
  have hadd : (q.worker.cleared sub.toRecipient).queries.add sub v.latestSeq
        ((q.worker.cleared sub.toRecipient).liveSubs sub.conn)
      = (p.worker.cleared sub.toRecipient).queries.add sub v.latestSeq
        ((p.worker.cleared sub.toRecipient).liveSubs sub.conn) := by
    rw [hlive]
    exact congrArg (Scheduler.add · sub v.latestSeq _) h.queries_eq
  rw [addSub_eq hadd, addSub_eq rfl]
  refine ⟨rfl, hhandoffs, hfollowed, ?_, h.log_eq, h.faults_eq⟩
  rw [List.filter_append, List.filter_append, h.out_eq]

theorem Abreast.handle (h : Abreast p q) (m : Message) : Abreast (handle v p m) (handle v q m) := by
  cases m with
  | newSub sub => exact h.addSub sub
  | removeSub who =>
    refine ⟨congrArg (·.remove who) h.queries_eq, congrArg (List.filter _) h.handoffs_eq, fun x => ?_,
      h.out_eq, h.log_eq, h.faults_eq⟩
    show (q.worker.monitors.remove who).followed? x = (p.worker.monitors.remove who).followed? x
    rw [Monitors.followed_remove, Monitors.followed_remove, h.followed_eq]
  | closeConn conn =>
    refine ⟨congrArg (·.closeConn conn) h.queries_eq, congrArg (List.filter _) h.handoffs_eq, fun x => ?_,
      h.out_eq, h.log_eq, h.faults_eq⟩
    show (q.worker.monitors.closeConn conn).followed? x = (p.worker.monitors.closeConn conn).followed? x
    rw [Monitors.followed_closeConn, Monitors.followed_closeConn, h.followed_eq]
  | dbChange => exact abreast_dispatch.symm.trans (h.trans abreast_dispatch)

theorem Abreast.handleAll (h : Abreast p q) (ms : List Message) :
    Abreast (ms.foldl (Worker.handle v) p) (ms.foldl (Worker.handle v) q) := by
  induction ms generalizing p q with
  | nil => exact h
  | cons m rest ih => exact ih (h.handle m)

/-! ### Turns -/

/-- Where the same replay has its turn and meets the same failures, it gets as far. -/
theorem Abreast.runQuery (h : Abreast p q) : Abreast (runQuery v clock p) (runQuery v clock q) := by
  have hturn : { q.worker.queries.process v clock q.faults with
        faults := (q.worker.queries.process v clock q.faults).faults.withoutNews }
      = { p.worker.queries.process v clock p.faults with
        faults := (p.worker.queries.process v clock p.faults).faults.withoutNews } := by
    rw [← Scheduler.process_withoutNews, ← Scheduler.process_withoutNews, h.queries_eq, h.faults_eq]
  have hscheduler := congrArg Scheduler.Turn.scheduler hturn
  have hdelivered := congrArg Scheduler.Turn.delivered hturn
  have hfinished := congrArg Scheduler.Turn.finished hturn
  have hfaults := congrArg Scheduler.Turn.faults hturn
  have hlog := congrArg Scheduler.Turn.log hturn
  simp only at hscheduler hdelivered hfinished hfaults hlog
  simp only [Worker.runQuery, hscheduler, hdelivered, hfinished, hlog]
  split
  · refine ⟨rfl, h.handoffs_eq, h.followed_eq, ?_, ?_, hfaults⟩
    · simp only [Pass.fail, Pass.send, List.filter_append, h.out_eq]
    · simp only [Pass.fail, Pass.send, h.log_eq]
  · refine ⟨rfl, h.handoffs_eq, h.followed_eq, ?_, ?_, hfaults⟩
    · simp only [Pass.send, List.filter_append, h.out_eq]
    · simp only [Pass.send, h.log_eq]
  · refine ⟨rfl, ?_, h.followed_eq, ?_, ?_, hfaults⟩
    · simp only [Pass.send, h.handoffs_eq]
    · simp only [Pass.send, List.filter_append, h.out_eq]
    · simp only [Pass.send, h.log_eq]

/-- The pass of a step against a view once all messages have been handled and a replay has had its
turn. -/
def served (w : Worker) (v : View) (clock : Clock) (f : Faults) : Pass :=
  Worker.runQuery v clock (w.briefed v f)

/-- Whichever walks over new events fail, a step handles all its messages the same way, and gives the same
replay a turn that gets as far. -/
theorem abreast_served (h : f'.withoutNews = f.withoutNews) :
    Abreast (w.served v clock f) (w.served v clock f') := by
  have hbegin : Abreast (w.begin v f) (w.begin v f') := ⟨rfl, rfl, fun _ => rfl, rfl, rfl, h⟩
  exact (hbegin.handleAll w.pending).runQuery

/-! ### Failures yet to come -/

/-- A walk asks for the next outcome and no other. -/
theorem walk_of_take {α : Type} {n : Nat}
    (h : f'.eventsAfter.take (n + 1) = f.eventsAfter.take (n + 1)) (l : List α) :
    ∃ f'', f'.walk .eventsAfter l = ((f.walk .eventsAfter l).1, (f.walk .eventsAfter l).2.1, f'')
      ∧ f''.eventsAfter.take n = (f.walk .eventsAfter l).2.2.eventsAfter.take n := by
  obtain ⟨snapshot, latestSeq, event, scanBack, eventsAfter⟩ := f
  obtain ⟨snapshot', latestSeq', event', scanBack', eventsAfter'⟩ := f'
  simp only at h
  cases eventsAfter with
  | nil =>
    cases eventsAfter' with
    | nil => exact ⟨_, rfl, rfl⟩
    | cons outcome' rest' => cases h
  | cons outcome rest =>
    cases eventsAfter' with
    | nil => cases h
    | cons outcome' rest' =>
      obtain ⟨rfl, hrest⟩ := List.cons.inj h
      cases outcome' with
      | none => exact ⟨_, rfl, hrest⟩
      | some visits => exact ⟨_, rfl, hrest⟩

theorem dispatch_of_take {n : Nat}
    (h : f'.eventsAfter.take (n + 1) = p.faults.eventsAfter.take (n + 1)) :
    ∃ f'', dispatch v { p with faults := f' } = { dispatch v p with faults := f'' }
      ∧ f''.eventsAfter.take n = (dispatch v p).faults.eventsAfter.take n := by
  obtain ⟨f'', hwalk, hrest⟩ := walk_of_take h (v.eventsAfter (p.worker.position.getD v.latestSeq))
  refine ⟨f'', ?_⟩
  rw [dispatch, dispatch]
  cases herror : (p.faults.walk .eventsAfter
      (v.eventsAfter (p.worker.position.getD v.latestSeq))).2.1 with
  | none =>
    simp only [hwalk, herror]
    exact ⟨rfl, hrest⟩
  | some e =>
    simp only [hwalk, herror]
    exact ⟨rfl, hrest⟩

/-- Only news asks for the outcome of a walk, and for one. -/
theorem handle_of_take {n : Nat} (m : Message)
    (h : f'.eventsAfter.take (n + [m].count .dbChange)
      = p.faults.eventsAfter.take (n + [m].count .dbChange)) :
    ∃ f'', handle v { p with faults := f' } m = { handle v p m with faults := f'' }
      ∧ f''.eventsAfter.take n = (handle v p m).faults.eventsAfter.take n := by
  cases m with
  | newSub sub =>
    refine ⟨f', ?_⟩
    rw [handle, handle, addSub_eq rfl, addSub_eq rfl]
    exact ⟨rfl, h⟩
  | removeSub who => exact ⟨f', rfl, h⟩
  | closeConn conn => exact ⟨f', rfl, h⟩
  | dbChange => exact dispatch_of_take h

theorem handleAll_of_take {ms : List Message}
    (h : f'.eventsAfter.take (ms.count .dbChange) = p.faults.eventsAfter.take (ms.count .dbChange)) :
    ∃ f'', ms.foldl (handle v) { p with faults := f' }
      = { ms.foldl (handle v) p with faults := f'' } := by
  induction ms generalizing p f' with
  | nil => exact ⟨f', rfl⟩
  | cons m rest ih =>
    have hcount : (m :: rest).count .dbChange = rest.count .dbChange + [m].count .dbChange := by
      rw [Nat.add_comm, ← List.count_append, List.singleton_append]
    rw [hcount] at h
    obtain ⟨f'', hhandle, hrest⟩ := handle_of_take (v := v) m h
    rw [List.foldl_cons, List.foldl_cons, hhandle]
    exact ih hrest

/-- What fails in a step after its messages have been handled has been no hindrance to them. -/
theorem briefed_of_take (h : f'.eventsAfter.take (w.pending.count .dbChange)
      = f.eventsAfter.take (w.pending.count .dbChange)) :
    ∃ f'', w.briefed v f' = { w.briefed v f with faults := f'' } :=
  handleAll_of_take (p := w.begin v f) h

end Worker

end EventRelay
