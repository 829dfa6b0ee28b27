import EventRelay.Proofs.Worker.Course
import EventRelay.Proofs.Worker.Holdings
/-!
# Capacity

A connection may have so many subscriptions with a worker and no more, wherever they are.  The check stands
where a subscription is taken on, and what it counts is cleared of the name first.  So a name that is held
can always be taken again, and there is room for everybody in the handoff queue when it goes live.

Main statement: `Course.orderly_admission`.
-/

namespace EventRelay

namespace Delivery

def isNotice : Delivery → Bool
  | .notice _ _ => true
  | _ => false

end Delivery

namespace Worker

variable {max : Nat} {v : View} {clock : Clock} {w w' : Worker} {n n' : Nat} {deeds deeds' : List Deed}
  {p : Pass} {sub : Subscription} {follower : Follower} {rest fs : List Follower}

/-- Nobody is in two places, and no connection has more subscriptions than it may. -/
structure Orderly (max : Nat) (w : Worker) : Prop where
  places_le_one : ∀ who, w.places who ≤ 1
  subs_le : ∀ conn, w.subs conn ≤ max

/-- The tales fit, no connection has more subscriptions than it may, and nobody who has been taken on is
lost. -/
structure Capped (max : Nat) (v : View) (w : Worker) (n : Nat) (deeds : List Deed) : Prop where
  going : Going v w n deeds
  queries_eq : w.queries.config.maxSubsPerConnection.toNat = max
  monitors_eq : w.monitors.maxSubsPerConnection = max
  subs_le : ∀ conn, w.subs conn ≤ max
  held : ∀ who, (taleOf who deeds).taken ≠ none → w.whereabouts who ≠ .nowhere

theorem Capped.orderly (h : Capped max v w n deeds) : w.Orderly max :=
  ⟨h.going.places_le_one, h.subs_le⟩

theorem capped_start {c : Config} {pending : List Message} (hle : n ≤ v.latestSeq) :
    Capped c.maxSubsPerConnection.toNat v { start c with pending, position := some n } n [] where
  going := going_start hle
  queries_eq := rfl
  monitors_eq := rfl
  subs_le _ := Nat.zero_le _
  held _ htaken := absurd rfl htaken

theorem Capped.withPending (h : Capped max v w n deeds) (pending : List Message) :
    Capped max v { w with pending } n deeds :=
  ⟨h.going.withPending pending, h.queries_eq, h.monitors_eq, h.subs_le, h.held⟩

theorem Capped.mono (h : Capped max v w n deeds) {v' : View} (hle : v.latestSeq ≤ v'.latestSeq) :
    Capped max v' w n deeds :=
  { h with going := h.going.mono hle }

/-- Where nobody new is held, there is room as before. -/
theorem Capped.of_nowhere (h : Capped max v w n deeds) (h' : Going v w' n' deeds')
    (hqueries : w'.queries.config = w.queries.config)
    (hmonitors : w'.monitors.maxSubsPerConnection = w.monitors.maxSubsPerConnection)
    (hnone : ∀ who, w.whereabouts who = .nowhere → w'.whereabouts who = .nowhere)
    (hheld : ∀ who, (taleOf who deeds').taken ≠ none → w'.whereabouts who ≠ .nowhere) :
    Capped max v w' n' deeds' where
  going := h'
  queries_eq := by rw [hqueries, h.queries_eq]
  monitors_eq := hmonitors.trans h.monitors_eq
  subs_le conn := Nat.le_trans (h.going.subs_le h' hnone conn) (h.subs_le conn)
  held := hheld

/-- What is sent takes nobody on and nobody away. -/
theorem Capped.sent (h : Capped max v w n deeds) {ds : List Delivery}
    (h' : Going v w' n' (deeds ++ ds.map .sent)) (hqueries : w'.queries.config = w.queries.config)
    (hmonitors : w'.monitors.maxSubsPerConnection = w.monitors.maxSubsPerConnection)
    (hsame : ∀ who, w'.whereabouts who = .nowhere ↔ w.whereabouts who = .nowhere) :
    Capped max v w' n' (deeds ++ ds.map .sent) := by
  refine h.of_nowhere h' hqueries hmonitors (fun who => (hsame who).2) fun who htaken hnone => ?_
  rw [taleOf_sent] at htaken
  exact h.held who htaken ((hsame who).1 hnone)

/-- Where nothing has happened, everybody is where they were. -/
theorem Capped.quiet (h : Capped max v w n deeds) (h' : Going v w' n' deeds)
    (hqueries : w'.queries.config = w.queries.config)
    (hmonitors : w'.monitors.maxSubsPerConnection = w.monitors.maxSubsPerConnection)
    (hsame : ∀ who, w'.whereabouts who = w.whereabouts who) : Capped max v w' n' deeds := by
  refine h.of_nowhere h' hqueries hmonitors (fun who hnone => (hsame who).trans hnone)
    fun who htaken => ?_
  rw [hsame]
  exact h.held who htaken

/-! ### Messages -/

/-- A message that takes nobody on takes away those it is about, at most. -/
theorem Capped.message (h : Capped max v w n deeds) {m : Message} {latest : Nat}
    (h' : Going v w' n (deeds ++ [.handled m latest false]))
    (hqueries : w'.queries.config = w.queries.config)
    (hmonitors : w'.monitors.maxSubsPerConnection = w.monitors.maxSubsPerConnection)
    (hplace : ∀ who, w'.whereabouts who = if m.concerns who then .nowhere else w.whereabouts who) :
    Capped max v w' n (deeds ++ [.handled m latest false]) := by
  refine h.of_nowhere h' hqueries hmonitors (fun who hnone => ?_) fun who htaken => ?_
  · rw [hplace]
    split
    · rfl
    · exact hnone
  · rw [taleOf_concat, Tale.step] at htaken
    rw [hplace]
    cases hconcerns : m.concerns who with
    | true =>
      have hnobody : (Deed.handled m latest false).follower? = none := by
        cases m <;> rfl
      have hconcerns : (Deed.handled m latest false).concerns who = true := hconcerns
      rw [if_pos hconcerns] at htaken
      exact absurd hnobody htaken
    | false =>
      have hconcerns : (Deed.handled m latest false).concerns who = false := hconcerns
      rw [hconcerns, if_neg Bool.false_ne_true] at htaken
      exact h.held who htaken

theorem Capped.removeSub (h : Capped max v w n deeds) (who : Recipient) {latest : Nat} :
    Capped max v (w.removeSub who) n (deeds ++ [.handled (.removeSub who) latest false]) := by
  refine h.message (h.going.removeSub who) Scheduler.config_remove Monitors.maxSubs_remove fun x => ?_
  simp only [Message.concerns, decide_eq_true_eq, eq_comm (a := who)]
  exact whereabouts_removeSub h.going.queries who

theorem Capped.closeConn (h : Capped max v w n deeds) (conn : ConnId) {latest : Nat} :
    Capped max v (w.closeConn conn) n (deeds ++ [.handled (.closeConn conn) latest false]) := by
  refine h.message (h.going.closeConn conn) Scheduler.config_closeConn Monitors.maxSubs_closeConn
    fun x => ?_
  simp only [Message.concerns, decide_eq_true_eq]
  exact whereabouts_closeConn h.going.queries conn

/-- A subscription is taken on if its connection has room once its name has been cleared. -/
theorem add_removeSub {latest live : Nat}
    (hlive : live = (w.removeSub sub.toRecipient).liveSubs sub.conn) :
    w.queries.add sub latest live
      = if w.queries.config.maxSubsPerConnection.toNat ≤ (w.removeSub sub.toRecipient).subs sub.conn then
          (w.queries.remove sub.toRecipient, some ⟨sub.conn, w.queries.config.maxSubsPerConnection.toNat⟩)
        else ((w.queries.remove sub.toRecipient).enlist (.start ⟨sub, latest⟩
          w.queries.config.authorKindCap w.queries.config.logScans), none) := by
  rw [Scheduler.add_eq, hlive]
  rfl

/-- Nobody else moves when a subscription is taken on. -/
theorem whereabouts_newSub (hw : w.queries.Wf) {latest live : Nat} {who : Recipient}
    (hne : who ≠ sub.toRecipient) :
    ({ w.removeSub sub.toRecipient with queries := (w.queries.add sub latest live).1 } :
      Worker).whereabouts who = w.whereabouts who := by
  have hcleared : (w.removeSub sub.toRecipient).whereabouts who = w.whereabouts who :=
    (whereabouts_removeSub hw sub.toRecipient).trans (if_neg hne)
  have hserving : (w.queries.add sub latest live).1.serving who
      = (w.removeSub sub.toRecipient).queries.serving who := by
    have hgone : (w.queries.remove sub.toRecipient).serving who = w.queries.serving who :=
      hw.serving_remove.trans (if_neg hne)
    rcases hw.add_cases sub latest live with ⟨-, hrefused⟩ | ⟨-, -, cap, logScans, hserving⟩
    · rw [hrefused]
      rfl
    · rw [hserving, if_neg hne]
      exact hgone.symm
  rw [← hcleared, whereabouts, hserving]
  rfl

/-- Whoever is taken on fills a place that is free once the name has been cleared. -/
theorem Capped.subs_newSub_le (h : Capped max v w n deeds) (sub : Subscription) {live : Nat}
    (hlive : live = (w.removeSub sub.toRecipient).liveSubs sub.conn) (conn : ConnId) :
    ({ w.removeSub sub.toRecipient with queries := (w.queries.add sub v.latestSeq live).1 } :
      Worker).subs conn ≤ max := by
  have hcleared : Capped max v (w.removeSub sub.toRecipient) n _ := @Capped.removeSub _ _ _ _ _ h _ 0
  by_cases hroom : max ≤ (w.removeSub sub.toRecipient).subs sub.conn
  · -- nobody is taken on, so the name is only cleared
    have hrefused : (w.queries.add sub v.latestSeq live).1 = w.queries.remove sub.toRecipient := by
      rw [add_removeSub hlive, h.queries_eq, if_pos hroom]
    rw [hrefused]
    exact hcleared.subs_le conn
  · have hnames : ({ w.removeSub sub.toRecipient with queries := (w.queries.add sub v.latestSeq live).1 } :
        Worker).subs conn
        ≤ (sub.toRecipient :: (w.removeSub sub.toRecipient).holdings).countP (·.conn = conn) := by
      refine (h.going.newSub sub live).subs_le_countP (fun who hwho => ?_) conn
      by_cases hne : who = sub.toRecipient
      · exact List.mem_cons.2 (.inl hne)
      · rw [whereabouts_newSub h.going.queries hne] at hwho
        refine List.mem_cons_of_mem _ ((mem_holdings hcleared.going.queries).2 ?_)
        rw [whereabouts_removeSub h.going.queries, if_neg hne]
        exact hwho
    have hle := hcleared.subs_le conn
    refine Nat.le_trans hnames ?_
    rw [List.countP_cons, ← subs_eq_countP]
    by_cases hconn : sub.conn = conn
    · subst hconn
      simp only [decide_true, if_true]
      omega
    · simp only [hconn, decide_false, Bool.false_eq_true, if_false]
      omega

/-- Whoever is taken on is served. -/
theorem Capped.held_newSub (h : Capped max v w n deeds) (sub : Subscription) {live : Nat} {who : Recipient}
    (htaken : (taleOf who (deeds
      ++ [.handled (.newSub sub) v.latestSeq (w.queries.add sub v.latestSeq live).2.isNone])).taken ≠ none) :
    ({ w.removeSub sub.toRecipient with queries := (w.queries.add sub v.latestSeq live).1 } :
      Worker).whereabouts who ≠ .nowhere := by
  intro hnone
  rw [taleOf_concat, Tale.step] at htaken
  by_cases hne : who = sub.toRecipient
  · have hconcerns : (Deed.handled (.newSub sub) v.latestSeq
        (w.queries.add sub v.latestSeq live).2.isNone).concerns who = true := decide_eq_true hne.symm
    rw [if_pos hconcerns] at htaken
    rcases h.going.queries.add_cases sub v.latestSeq live with
      ⟨hrefused, -⟩ | ⟨-, -, cap, logScans, hserving⟩
    · rw [hrefused] at htaken
      exact htaken rfl
    · have hserved := hserving who
      rw [if_pos hne] at hserved
      cases hserved.symm.trans (congrArg Whereabouts.replay hnone)
  · -- the message is not about anybody else
    have hconcerns : (Deed.handled (.newSub sub) v.latestSeq
        (w.queries.add sub v.latestSeq live).2.isNone).concerns who = false :=
      decide_eq_false fun heq => hne heq.symm
    rw [hconcerns, if_neg Bool.false_ne_true] at htaken
    rw [whereabouts_newSub h.going.queries hne] at hnone
    exact h.held who htaken hnone

theorem Capped.newSub (h : Capped max v w n deeds) (sub : Subscription) {live : Nat}
    (hlive : live = (w.removeSub sub.toRecipient).liveSubs sub.conn) :
    Capped max v { w.removeSub sub.toRecipient with queries := (w.queries.add sub v.latestSeq live).1 } n
      (deeds ++ [.handled (.newSub sub) v.latestSeq (w.queries.add sub v.latestSeq live).2.isNone]) := by
  have hconfig : (w.queries.add sub v.latestSeq live).1.config = w.queries.config := Scheduler.config_add
  have hmonitors : (w.removeSub sub.toRecipient).monitors.maxSubsPerConnection
      = w.monitors.maxSubsPerConnection := Monitors.maxSubs_remove
  constructor
  · exact h.going.newSub sub live
  · show (w.queries.add sub v.latestSeq live).1.config.maxSubsPerConnection.toNat = max
    rw [hconfig, h.queries_eq]
  · exact hmonitors.trans h.monitors_eq
  · exact h.subs_newSub_le sub hlive
  · exact fun who => h.held_newSub sub

/-! ### Turns and handoffs -/

/-- There is room for whoever heads the handoff queue. -/
theorem Capped.room (h : Capped max v { w with handoffs := follower :: rest } n deeds) :
    ¬ (w.monitors.remove follower.sub.toRecipient).maxSubsPerConnection
      ≤ (w.monitors.remove follower.sub.toRecipient).connSubs follower.sub.conn := by
  -- whoever heads the queue is in no other place, so the monitors have nothing to clear
  obtain ⟨hnowhere, -⟩ := h.going.of_head
  have hget : w.monitors.get? follower.sub.toRecipient = none := congrArg Whereabouts.monitor hnowhere
  have hcount : w.queries.connSubs follower.sub.conn + (w.monitors.connSubs follower.sub.conn
      + (follower :: rest).countP (·.sub.conn = follower.sub.conn)) ≤ max := h.subs_le follower.sub.conn
  simp only [List.countP_cons, decide_true, if_true] at hcount
  have hmax : w.monitors.maxSubsPerConnection = max := h.monitors_eq
  rw [Monitors.remove_eq_self hget]
  omega

theorem Capped.install_none (h : Capped max v { w with handoffs := follower :: rest } n deeds) :
    (w.monitors.install follower).2 = none := by
  simp only [Monitors.install]
  rw [if_neg h.room]

theorem whereabouts_cons_nowhere {who : Recipient} :
    ({ w with handoffs := follower :: rest } : Worker).whereabouts who = .nowhere
      ↔ who ≠ follower.sub.toRecipient
        ∧ ({ w with handoffs := rest } : Worker).whereabouts who = .nowhere := by
  rw [whereabouts_cons]
  by_cases hwho : who = follower.sub.toRecipient
  · rw [if_pos hwho]
    simp [hwho, Whereabouts.nowhere]
  · rw [if_neg hwho]
    simp [hwho]

/-- Who is nowhere after a turn that leaves the replay's own recipient somewhere was nowhere before it. -/
theorem nowhere_of_turned {r : Replay} {slice : Replay.Slice} {turn : Scheduler.Turn} {x who : Recipient}
    (hturned : Scheduler.Turned w.queries v x r slice turn) (hsomewhere : w'.whereabouts x ≠ .nowhere)
    (hothers : who ≠ x → w'.whereabouts who
      = ({ w with queries := turn.scheduler } : Worker).whereabouts who) :
    w'.whereabouts who = .nowhere ↔ w.whereabouts who = .nowhere := by
  by_cases hwho : who = x
  · subst hwho
    refine iff_of_false hsomewhere fun hnone => ?_
    cases hturned.serving.symm.trans (congrArg Whereabouts.replay hnone)
  · rw [hothers hwho, whereabouts_of_turned hturned hwho]

/-- Every piece of work keeps a worker within its capacity. -/
theorem capped_upheld (hv : v.Mirrors) : Upheld v (Capped max v) where
  position h := h.going.position
  queries h := h.going.queries
  withPending h pending := h.withPending pending
  newSub h sub live hlive := h.newSub sub hlive
  removeSub h who := h.removeSub who
  closeConn h conn := h.closeConn conn
  dbChange h := h.message ((going_upheld hv).dbChange h.going) rfl rfl fun _ => rfl
  notice {w n deeds} h conn := by
    have hgoing : Going v w n (deeds ++ [Delivery.tooManySubs conn].map .sent) := h.going.notice conn
    exact h.sent hgoing rfl rfl fun _ => Iff.rfl
  shown {w n deeds} h seq e rest hafter := by
    have hgoing := (going_upheld hv).shown h.going hafter
    have hd := h.going.monitors.dispatch h.going.settled (View.event?_of_cons hafter).2 e
    refine h.sent hgoing rfl Monitors.maxSubs_dispatch fun who => ?_
    have hget : (w.monitors.dispatch seq e).1.get? who = none ↔ w.monitors.get? who = none := by
      rw [hd.get?_eq]
      split
      · exact Option.map_eq_none_iff
      · exact Iff.rfl
    simp only [whereabouts, Whereabouts.nowhere, Whereabouts.mk.injEq, hget]
  advance h _ := h.quiet h.going.advance rfl rfl fun _ => rfl
  idle h queries hwf hconfig hserving := h.quiet (h.going.idle hwf hserving) hconfig rfl
    fun who => congrArg (Whereabouts.mk · _ _) (hserving who)
  pause {w n deeds} h who r slice turn hwf hconfig hturned hstays := by
    refine h.sent (h.going.pause hwf hturned hstays) hconfig rfl fun x => ?_
    refine nowhere_of_turned hturned (fun hnone => ?_) fun _ => rfl
    cases hstays.symm.trans (congrArg Whereabouts.replay hnone)
  complete {w n deeds} h who r slice turn hwf hconfig hturned hend hgone := by
    have hrecipient : slice.replay.follower.sub.toRecipient = who := by
      rw [hturned.served.follower_eq]
      exact h.going.queries.recipient_of_serving hturned.serving
    refine h.sent (h.going.complete hwf hturned hgone) hconfig rfl fun x => ?_
    refine nowhere_of_turned hturned (fun hnone => ?_) fun hne => ?_
    · have hwaiting := List.filter_eq_nil_iff.1 (congrArg Whereabouts.waiting hnone) slice.replay.follower
        (List.mem_append_right _ (List.mem_singleton_self _))
      exact hwaiting (decide_eq_true hrecipient)
    · exact @whereabouts_concat { w with queries := turn.scheduler } x slice.replay.follower
        (hrecipient ▸ hne)
  catchUp {w follower rest n deeds} h f := by
    obtain ⟨passed, hc⟩ := caughtUp v n f follower
    refine h.sent (h.going.catchUp f) rfl rfl fun who => ?_
    rw [whereabouts_cons_nowhere, whereabouts_cons_nowhere, hc.follower_eq]
  goLive {w follower rest n deeds} h _ := by
    refine h.of_nowhere h.going.goLive rfl Monitors.maxSubs_install (fun who hnone => ?_)
      fun who htaken hnone => h.held who htaken ?_
    · obtain ⟨hne, hrest⟩ := whereabouts_cons_nowhere.1 hnone
      have hget := @Monitors.get?_install_of_ne w.monitors follower who hne
      rw [← hrest, whereabouts, whereabouts]
      simp only [hget]
    · -- whoever heads the queue is followed afterwards, for there is room
      have hget : (w.monitors.install follower).1.get? who = none := congrArg Whereabouts.monitor hnone
      by_cases hne : who = follower.sub.toRecipient
      · rw [Monitors.get?_install h.room, if_pos hne] at hget
        cases hget
      · rw [Monitors.get?_install_of_ne hne] at hget
        refine whereabouts_cons_nowhere.2 ⟨hne, ?_⟩
        rw [← hnone, whereabouts, whereabouts]
        simp only [Monitors.get?_install_of_ne hne]

/-! ### Refusals -/

/-- A message leaves a worker within its capacity. -/
theorem Capped.handleAll (h : Capped max v p.worker n deeds) (hv : v.Mirrors) (ms : List Message) :
    ∃ n', Capped max v (ms.foldl (handle v) p).worker n' (deeds ++ recordOf v p ms) :=
  (capped_upheld hv).handleAll h

/-- Somebody who is refused is told so. -/
theorem out_addSub : (addSub v p sub).out
    = p.out ++ if takesOn v p (.newSub sub) then [] else [.tooManySubs sub.conn] := by
  have htakes : takesOn v p (.newSub sub) = (p.worker.queries.add sub v.latestSeq
    ((p.worker.removeSub sub.toRecipient).liveSubs sub.conn)).2.isNone := rfl
  rw [addSub, htakes]
  simp only
  split
  · rename_i hnone
    have hnone : (p.worker.queries.add sub v.latestSeq
        ((p.worker.removeSub sub.toRecipient).liveSubs sub.conn)).2 = none := hnone
    rw [hnone]
    exact (List.append_nil _).symm
  · rename_i refusal hsome
    have hsome : (p.worker.queries.add sub v.latestSeq
        ((p.worker.removeSub sub.toRecipient).liveSubs sub.conn)).2 = some refusal := hsome
    rw [hsome]
    rfl

/-- Somebody is refused where the connection has as many others as it may. -/
theorem Capped.refused_iff (h : Capped max v p.worker n deeds) (sub : Subscription) :
    takesOn v p (.newSub sub) = false ↔ p.worker.others sub.toRecipient = max := by
  have hothers : (p.worker.removeSub sub.toRecipient).subs sub.conn = p.worker.others sub.toRecipient :=
    h.going.subs_removeSub sub.toRecipient
  have hle : p.worker.others sub.toRecipient ≤ max :=
    Nat.le_trans (Nat.sub_le _ _) (h.subs_le sub.conn)
  have htakes : takesOn v p (.newSub sub) = (p.worker.queries.add sub v.latestSeq
    ((p.worker.removeSub sub.toRecipient).liveSubs sub.conn)).2.isNone := rfl
  -- what is counted is what is left once the name has been cleared
  rw [htakes, add_removeSub rfl, hothers, h.queries_eq]
  split
  · rename_i hfull
    exact iff_of_true rfl (Nat.le_antisymm hle hfull)
  · rename_i hroom
    exact iff_of_false Bool.true_eq_false.mp fun hfull => hroom (Nat.le_of_eq hfull.symm)

/-- Whoever is held already is not refused. -/
theorem Capped.takesOn_of_held (h : Capped max v p.worker n deeds)
    (hheld : 0 < p.worker.places sub.toRecipient) : takesOn v p (.newSub sub) = true := by
  rw [← Bool.not_eq_false, h.refused_iff sub]
  have hle := h.subs_le sub.conn
  have hmem : sub.toRecipient ∈ p.worker.holdings := by
    rw [places_eq_count] at hheld
    exact List.count_pos_iff.1 hheld
  have hsome : 0 < p.worker.subs sub.conn := by
    rw [subs_eq_countP]
    exact List.countP_pos_iff.2 ⟨_, hmem, decide_eq_true rfl⟩
  show ¬ p.worker.subs sub.conn - p.worker.places sub.toRecipient = max
  omega

/-- A turn sends no notice. -/
theorem quiet_runQuery :
    ∃ ds, (runQuery v clock p).out = p.out ++ ds ∧ ∀ d ∈ ds, d.isNotice = false := by
  have hevents : ∀ d ∈ (p.worker.queries.process v clock p.faults).delivered.map
      (fun d => Delivery.event d.1 d.2), d.isNotice = false := by
    intro d hd
    obtain ⟨_, -, rfl⟩ := List.mem_map.1 hd
    rfl
  simp only [runQuery]
  split
  · exact ⟨_, rfl, hevents⟩
  · exact ⟨_, rfl, hevents⟩
  · refine ⟨_, List.append_assoc _ _ _, fun d hd => ?_⟩
    rcases List.mem_append.1 hd with hd | hd
    · exact hevents d hd
    · rw [List.mem_singleton.1 hd]
      rfl

/-- Whom the handoff queue lets go live, each with the worker whose queue it heads then. -/
def installsFrom (v : View) (position : Nat) (w : Worker) (f : Faults) :
    List Follower → List (Worker × Follower)
  | [] => []
  | follower :: rest =>
    let (follower, _, error, f) := catchUp v position f follower
    match error with
    | some _ => []
    | none =>
      ({ w with handoffs := follower :: rest }, follower) ::
        installsFrom v position { w with monitors := (w.monitors.install follower).1 } f rest

/-- Whom a step against a view lets go live. -/
def installs (w : Worker) (v : View) (clock : Clock) (f : Faults) : List (Worker × Follower) :=
  let p := runQuery v clock (w.briefed v f)
  installsFrom v (p.worker.position.getD 0) p.worker p.faults p.worker.handoffs

/-- Nobody in the handoff queue is refused. -/
theorem Capped.installs (h : Capped max v { p.worker with handoffs := fs } n deeds) (hv : v.Mirrors) :
    (∀ x ∈ installsFrom v n p.worker p.faults fs, x.1.Orderly max ∧ (x.1.monitors.install x.2).2 = none)
      ∧ ∃ ds, (install v n p fs).out = p.out ++ ds ∧ ∀ d ∈ ds, d.isNotice = false := by
  induction fs generalizing p deeds with
  | nil => exact ⟨fun _ hx => absurd hx List.not_mem_nil, [], (List.append_nil _).symm,
      fun _ hd => absurd hd List.not_mem_nil⟩
  | cons follower rest ih =>
    have hcaught := (capped_upheld hv).catchUp h p.faults
    obtain ⟨passed, hc⟩ := caughtUp v n p.faults follower
    have hquiet : ∀ d ∈ (catchUp v n p.faults follower).2.1, d.isNotice = false := by
      rw [hc.out_eq]
      intro d hd
      obtain ⟨_, -, rfl⟩ := List.mem_map.1 hd
      rfl
    rw [installsFrom, install]
    generalize catchUp v n p.faults follower = result at hcaught hc hquiet
    obtain ⟨follower', out, error, faults⟩ := result
    cases error with
    | some e => exact ⟨fun _ hx => absurd hx List.not_mem_nil, out, rfl, hquiet⟩
    | none =>
      have hroom : (p.worker.monitors.install follower').2 = none := hcaught.install_none
      have hlive := (capped_upheld hv).goLive hcaught (hc.complete rfl)
      obtain ⟨hall, ds, hout, hds⟩ := @ih _
        (Pass.send { p with
          worker := { p.worker with monitors := (p.worker.monitors.install follower').1 }
          faults } out) hlive
      simp only [Pass.send, hroom]
      refine ⟨?_, out ++ ds, ?_, ?_⟩
      · intro x hx
        rcases List.mem_cons.1 hx with rfl | hx
        · exact ⟨hcaught.orderly, hroom⟩
        · exact hall x hx
      · exact hout.trans (List.append_assoc _ _ _)
      · intro d hd
        rcases List.mem_append.1 hd with hd | hd
        · exact hquiet d hd
        · exact hds d hd

/-! ### Courses -/

/-- A worker that has done nothing yet or is within its capacity. -/
def Roomy (c : Config) (v : View) (w : Worker) (deeds : List Deed) : Prop :=
  (∃ pending, w = { start c with pending } ∧ deeds = [])
    ∨ ∃ n, Capped c.maxSubsPerConnection.toNat v w n deeds

variable {c : Config} {s : Store}

theorem Roomy.orderly (h : Roomy c v w deeds) : w.Orderly c.maxSubsPerConnection.toNat := by
  rcases h with ⟨pending, rfl, -⟩ | ⟨n, hcapped⟩
  · exact ⟨fun _ => Nat.zero_le _, fun _ => Nat.zero_le _⟩
  · exact hcapped.orderly

theorem Roomy.begin (h : Roomy c v w deeds) (pending : List Message) (f : Faults) :
    ∃ n, Capped c.maxSubsPerConnection.toNat v ({ w with pending }.begin v f).worker n deeds := by
  rcases h with ⟨_, rfl, rfl⟩ | ⟨n, hcapped⟩
  · exact ⟨v.latestSeq, capped_start (Nat.le_refl _)⟩
  · refine ⟨n, ?_⟩
    have hpending := hcapped.withPending pending
    rw [begin_of_position hpending.going.position hpending.going.le_latest]
    exact hpending.withPending []

theorem Roomy.step (h : Roomy c v w deeds) (hv : v.Mirrors) (clock : Clock) (f : Faults)
    (messages : List Message) :
    Roomy c v (w.step v clock f messages).worker (deeds ++ w.record v clock f messages) := by
  rcases (capped_upheld hv).step clock f messages (h.begin _) with ⟨hworker, hrecord⟩ | hcapped
  · rw [hworker, hrecord, List.append_nil]
    rcases h with ⟨_, rfl, hdeeds⟩ | ⟨n, hcapped⟩
    · exact .inl ⟨_, rfl, hdeeds⟩
    · exact .inr ⟨n, hcapped.withPending _⟩
  · exact .inr hcapped

theorem Course.roomy (h : Course c s w deeds) : Roomy c s.view w deeds := by
  induction h with
  | start _ => exact .inl ⟨[], rfl, rfl⟩
  | change hcourse hchange ih =>
    have hle := hchange.latestSeq_le hcourse.built fun _ _ _ => trivial
    rcases ih with hfresh | ⟨n, hcapped⟩
    · exact .inl hfresh
    · exact .inr ⟨n, hcapped.mono hle⟩
  | step clock f messages hcourse ih => exact ih.step hcourse.built.view.mirrors clock f messages

/-- Nobody is in two places, and no connection has more subscriptions than it may, between the steps and
between the messages of a step.  So whoever is held already is not refused, nobody in the handoff queue is,
and anybody else is if the connection has as many others as it may. -/
theorem Course.orderly_admission (h : Course c s w deeds) :
    w.Orderly c.maxSubsPerConnection.toNat
      ∧ ∀ clock f messages, let w' : Worker := { w with pending := w.pending ++ messages }
        (∀ before, before <+: w'.pending →
          let p := before.foldl (handle s.view) (w'.begin s.view f)
          p.worker.Orderly c.maxSubsPerConnection.toNat
            ∧ ∀ sub, (takesOn s.view p (.newSub sub) = false
                ↔ p.worker.others sub.toRecipient = c.maxSubsPerConnection.toNat)
              ∧ (0 < p.worker.places sub.toRecipient → takesOn s.view p (.newSub sub) = true)
              ∧ (handle s.view p (.newSub sub)).out = p.out
                ++ if takesOn s.view p (.newSub sub) then [] else [.tooManySubs sub.conn])
        ∧ (∀ x ∈ w'.installs s.view clock f, x.1.Orderly c.maxSubsPerConnection.toNat
          ∧ (x.1.monitors.install x.2).2 = none)
        ∧ ∃ ds, (w'.stepIn s.view clock f).out = (w'.briefed s.view f).out ++ ds
          ∧ ∀ d ∈ ds, d.isNotice = false := by
  have hv := h.built.view.mirrors
  refine ⟨h.roomy.orderly, fun clock f messages => ?_⟩
  intro w'
  obtain ⟨n, hbegin⟩ := h.roomy.begin (w.pending ++ messages) f
  refine ⟨fun before _ => ?_, ?_⟩
  · intro p
    obtain ⟨n', hp⟩ := hbegin.handleAll hv before
    exact ⟨hp.orderly, fun sub => ⟨hp.refused_iff sub, hp.takesOn_of_held, out_addSub⟩⟩
  · obtain ⟨n', hbriefed⟩ := hbegin.handleAll hv w'.pending
    have hbriefed : Capped _ s.view (w'.briefed s.view f).worker n' _ := hbriefed
    obtain ⟨_, -, hserved⟩ := (capped_upheld hv).runQuery hbriefed
    obtain ⟨ds, hout, hds⟩ := @quiet_runQuery s.view clock (w'.briefed s.view f)
    obtain ⟨hall, ds', hout', hds'⟩ := Capped.installs hserved hv
    have hposition : (runQuery s.view clock (w'.briefed s.view f)).worker.position.getD 0 = n' := by
      rw [hserved.going.position, Option.getD_some]
    refine ⟨?_, ds ++ ds', ?_, fun d hd => ?_⟩
    · rw [installs, hposition]
      exact hall
    · rw [stepIn_eq hserved.going.position, hout', hout, List.append_assoc]
    · rcases List.mem_append.1 hd with hd | hd
      · exact hds d hd
      · exact hds' d hd

/-- A connection may have one subscription. -/
def oneEach : Config := { Config.default with maxSubsPerConnection := 1 }

/-- The worker has replayed the first note and follows its only subscription. -/
def occupied : Worker := ((start oneEach).step oneNote.view .unlimited .none [.newSub noteSub]).worker

/-- The same connection asks for the same under another name. -/
def secondSub : Subscription := { noteSub with subId := ⟨"t", rfl⟩ }

/-- The connection may ask again under the name that it has, but under no other. -/
theorem orderly_admission_occupied : occupied.Orderly 1
    ∧ takesOn oneNote.view (occupied.begin oneNote.view .none) (.newSub noteSub) = true
    ∧ takesOn oneNote.view (occupied.begin oneNote.view .none) (.newSub secondSub) = false := by
  have hstart : Course oneEach oneNote (start oneEach) [] := .start (Store.Built.memory.memory_insert trivial)
  have hcourse : Course oneEach oneNote occupied _ := hstart.step .unlimited .none [.newSub noteSub]
  obtain ⟨horderly, hstep⟩ := hcourse.orderly_admission
  obtain ⟨-, hnames⟩ := (hstep .unlimited .none []).1 [] List.nil_prefix
  exact ⟨horderly, (hnames noteSub).2.1 (by decide +kernel), (hnames secondSub).1.2 (by decide +kernel)⟩

end Worker

end EventRelay
