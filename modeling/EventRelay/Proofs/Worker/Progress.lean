import EventRelay.Proofs.Worker.Pieces
import EventRelay.Proofs.Worker.Standing
/-!
# How a worker gets on

Dispatches, turns and handoffs move subscriptions on, and their lives with them.  Whatever reads fail
on the way, every subscription has got afterwards what it should have by then: a walk that ends early
has passed on a beginning of the events, and the position or the watermark says how far it went.

Main statements: `Sound.shown`, `Sound.complete`, `Sound.pause`, `Sound.catchUp` and `Sound.goLive`.
-/

namespace EventRelay

namespace Worker

variable {admits : Event → Prop} {v : View} {w : Worker} {n b seq : Nat} {e : Event}
  {items : List Item} {life : Life} {follower : Follower} {who : Recipient}

/-! ### Dispatch -/

theorem lifeOf_shown {whos : List Recipient} (h : whos.Nodup) :
    lifeOf who (items ++ (shown seq whos).map .sent) = (lifeOf who items).map fun life =>
      { life with live := life.live ++ if who ∈ whos then [seq] else [] } := by
  rw [lifeOf_sent]
  congr 1
  funext life
  cases whos with
  | nil => exact Life.after_nil.trans (by rw [if_neg List.not_mem_nil, List.append_nil])
  | cons x rest =>
    have hcount : (x :: rest).count who = if who ∈ x :: rest then 1 else 0 := h.count
    have hlive : (Delivery.live seq (x :: rest)).liveTo who
        = if who ∈ x :: rest then [seq] else [] := by
      show List.replicate ((x :: rest).count who) seq = _
      rw [hcount]
      split
      · rfl
      · rfl
    show Life.mk _ _ (life.replayed ++ []) (life.live ++ ((Delivery.live seq (x :: rest)).liveTo who ++ []))
      = _
    rw [List.append_nil, List.append_nil, hlive]

/-- The position of the monitors does not matter for those that are not followed yet. -/
theorem Kept.mono (h : Kept admits v n b life follower) {n' : Nat} (hle : n ≤ n') :
    Kept admits v n' b life follower := by
  have hmax := h.le_max
  refine { h with le_max := ?_ }
  omega

/-- A subscription that is followed and is shown the next event. -/
theorem Kept.shown {rest : List (Nat × Event)} (h : Kept admits v n n life follower)
    (hafter : v.eventsAfter n = (seq, e) :: rest) {got : Prop} [Decidable got]
    (hgot : got ↔ follower.watermark < seq ∧ follower.sub.filters.accepts e = true) :
    Kept admits v seq seq { life with live := life.live ++ if got then [seq] else [] }
      (if got then { follower with watermark := seq } else follower) := by
  have hlt : n < seq := (View.event?_of_cons hafter).2
  have hle := h.le
  have hmax := h.le_max
  -- the event is the next one, so the stretch up to it is the one up to `n` and, perhaps, the event
  have hmore : ∀ x ∈ rest, seq < x.1 := by
    intro x hx
    rw [← View.eventsAfter_of_cons hafter] at hx
    exact (View.mem_eventsAfter.1 hx).2
  have hlive : v.between life.watermark seq life.sub.filters
      = life.live ++ if got then [seq] else [] := by
    have hsplit : v.eventsAfter n = [(seq, e)] ++ rest := hafter
    rw [View.between_eq_append hsplit (Nat.le_of_lt hlt) (by simp) hmore, h.live]
    congr 1
    rw [h.sub_eq] at hgot
    -- above `n` the watermark of the subscription is as good as the one it was taken on with
    by_cases hwatermark : life.watermark < seq
    · have hfollower : follower.watermark < seq := by omega
      by_cases haccepts : life.sub.filters.accepts e = true
      · simp [hgot, hfollower, hwatermark, haccepts]
      · simp [hgot, haccepts]
    · have hfollower : ¬ follower.watermark < seq := by omega
      simp [hgot, hfollower, hwatermark]
  by_cases hcase : got
  · simp only [if_pos hcase] at hlive ⊢
    have hseq := (hgot.1 hcase).1
    exact ⟨h.sub_eq, h.le_latest, Nat.le_of_lt (Nat.lt_of_le_of_lt hle hseq), Nat.le_max_right _ _,
      hlive.symm, h.replayed⟩
  · simp only [if_neg hcase] at hlive ⊢
    refine ⟨h.sub_eq, h.le_latest, hle, ?_, hlive.symm, h.replayed⟩
    show follower.watermark ≤ max life.watermark seq
    omega

/-- The monitors are shown the next event. -/
theorem Sound.shown {rest : List (Nat × Event)} (h : Sound admits v w n items) (hv : v.Mirrors)
    (hafter : v.eventsAfter n = (seq, e) :: rest) :
    Sound admits v { w with monitors := (w.monitors.dispatch seq e).1, position := some seq } seq
      (items ++ (Worker.shown seq (w.monitors.dispatch seq e).2).map .sent) := by
  obtain ⟨he, hlt⟩ := View.event?_of_cons hafter
  have hd := h.monitors.dispatch h.settled hlt e
  -- only those that are followed are found, so the lives of the others go on as they were
  have hothers : ∀ {who}, w.monitors.get? who = none →
      lifeOf who (items ++ (Worker.shown seq (w.monitors.dispatch seq e).2).map .sent)
        = lifeOf who items ∧ (w.monitors.dispatch seq e).1.get? who = none := by
    intro who hnone
    have hnot : who ∉ (w.monitors.dispatch seq e).2 := by
      intro hmem
      obtain ⟨monitor, hmonitor, -⟩ := hd.mem_iff.1 hmem
      cases hnone.symm.trans hmonitor
    refine ⟨?_, by rw [hd.get?_eq, if_neg hnot, hnone]⟩
    have hid : (fun life : Life => { life with live := life.live ++ [] }) = id := by
      funext life
      rw [List.append_nil]
      rfl
    rw [lifeOf_shown hd.nodup]
    simp only [if_neg hnot]
    rw [hid, Option.map_id, id]
  refine { h with
    position := rfl
    le_latest := hv.bounded he
    monitors := hd.wf
    settled := hd.settled
    replaying := ?replaying
    waiting := ?waiting
    followed := ?followed
    not_followed := ?not_followed
    apart := ?apart }
  case replaying =>
    intro who r hwho
    rw [(hothers (h.not_followed hwho)).1]
    exact h.replaying hwho
  case waiting =>
    intro follower hmem
    rw [(hothers (h.apart hmem)).1]
    obtain ⟨life, hlife, hkept⟩ := h.waiting hmem
    exact ⟨life, hlife, hkept.mono (Nat.le_of_lt hlt)⟩
  case followed =>
    intro who monitor' hwho
    have hget : (w.monitors.dispatch seq e).1.get? who = some monitor' := hwho
    rw [hd.get?_eq] at hget
    rw [lifeOf_shown hd.nodup]
    cases hmonitor : w.monitors.get? who with
    | none => simp [hmonitor] at hget
    | some monitor =>
      obtain ⟨life, hlife, hkept⟩ := h.followed hmonitor
      have hgot : who ∈ (w.monitors.dispatch seq e).2 ↔ monitor.follower.watermark < seq
          ∧ monitor.follower.sub.filters.accepts e = true := by
        rw [hd.mem_iff, hmonitor]
        simp
      refine ⟨_, by rw [hlife, Option.map_some], ?_⟩
      have hfollower : monitor'.follower =
          if who ∈ (w.monitors.dispatch seq e).2 then { monitor.follower with watermark := seq }
          else monitor.follower := by
        rw [hmonitor] at hget
        split at hget
        · rename_i hmem
          cases hget
          rw [if_pos hmem]
          rfl
        · rename_i hmem
          cases hget
          rw [if_neg hmem]
      rw [hfollower]
      exact hkept.shown hafter hgot
  case not_followed =>
    intro who r hwho
    exact (hothers (h.not_followed hwho)).2
  case apart =>
    intro follower hmem
    exact (hothers (h.apart hmem)).2

/-- Where there are no events, the monitors can be taken to be at the end. -/
theorem Sound.advance (h : Sound admits v w n items) (hnone : v.eventsAfter n = []) :
    Sound admits v { w with position := some v.latestSeq } v.latestSeq items := by
  refine ⟨rfl, Nat.le_refl _, h.queries, h.monitors, h.settled.mono h.le_latest, h.replaying, ?_, ?_,
    h.nodup, h.not_waiting, h.not_followed, h.apart⟩
  · intro follower hmem
    obtain ⟨life, hlife, hkept⟩ := h.waiting hmem
    exact ⟨life, hlife, hkept.mono h.le_latest⟩
  · intro who monitor hwho
    obtain ⟨life, hlife, hkept⟩ := h.followed hwho
    refine ⟨life, hlife, { hkept.mono h.le_latest with live := ?_ }⟩
    have hsplit : v.eventsAfter n = [] ++ [] := hnone
    rw [hkept.live, View.between_eq_append hsplit h.le_latest (by simp) (by simp)]
    exact (List.append_nil _).symm

/-! ### Turns -/

/-- What a turn delivers goes to one subscription. -/
theorem lifeOf_events {x : Recipient} {seqs : List Nat} :
    lifeOf x (items ++ (seqs.map fun seq => Delivery.event who seq).map .sent)
      = if x = who then (lifeOf x items).map fun life => { life with replayed := life.replayed ++ seqs }
        else lifeOf x items := by
  split
  · rename_i hx
    subst hx
    rw [lifeOf_sent]
    congr 1
    funext life
    have hreplayed : (seqs.map fun seq => Delivery.event x seq).flatMap (·.replayedTo x) = seqs := by
      rw [List.flatMap_map]
      simp only [Delivery.replayedTo, if_pos]
      exact List.flatMap_singleton' seqs
    have hlive : (seqs.map fun seq => Delivery.event x seq).flatMap (·.liveTo x) = [] := by
      rw [List.flatMap_map]
      exact List.flatMap_eq_nil_iff.2 fun _ _ => rfl
    rw [Life.after, hreplayed, hlive, List.append_nil]
  · rename_i hx
    apply lifeOf_sent_of_quiet
    intro d hd
    obtain ⟨seq, -, rfl⟩ := List.mem_map.1 hd
    exact ⟨if_neg fun heq => hx heq.symm, rfl⟩

/-- A replay that has had a slice. -/
theorem Replaying.served {r : Replay} {slice : Replay.Slice} (h : Replaying admits v life r)
    (hserved : Replay.Served v r slice) :
    Replaying admits v { life with replayed := life.replayed ++ r.deliveredSince slice.replay }
      slice.replay where
  follower_eq := hserved.follower_eq.trans h.follower_eq
  le_latest := h.le_latest
  replayed := by rw [h.replayed, hserved.delivered_append]
  live := h.live
  outlook hexact := hserved.outlook_eq.trans (h.outlook hexact)

/-- A replay that is complete leaves its subscription at its watermark. -/
theorem Replaying.finish {r : Replay} {slice : Replay.Slice} (h : Replaying admits v life r)
    (hserved : Replay.Served v r slice) (hend : slice.outcome = .ok true) :
    Kept admits v n slice.replay.follower.watermark
      { life with replayed := life.replayed ++ r.deliveredSince slice.replay }
      slice.replay.follower := by
  have hfollower := hserved.follower_eq.trans h.follower_eq
  rw [hfollower]
  refine ⟨rfl, h.le_latest, Nat.le_refl _, Nat.le_max_left _ _, ?_, fun hexact => ?_⟩
  · rw [View.between_eq_nil (Nat.le_refl _)]
    exact h.live
  · show life.replayed ++ r.deliveredSince slice.replay = _
    rw [h.replayed, ← hserved.delivered_append, hserved.delivered_eq hend, h.outlook hexact]

/-- A subscription that is nowhere else can be put at the end of the handoff queue. -/
theorem Sound.enqueue (h : Sound admits v w n items)
    (hlife : lifeOf follower.sub.toRecipient items = some life)
    (hkept : Kept admits v n follower.watermark life follower)
    (hserving : w.queries.serving follower.sub.toRecipient = none)
    (hwaiting : ∀ h ∈ w.handoffs, h.sub.toRecipient ≠ follower.sub.toRecipient)
    (hnone : w.monitors.get? follower.sub.toRecipient = none) :
    Sound admits v { w with handoffs := w.handoffs ++ [follower] } n items := by
  have hmem : ∀ {x}, x ∈ w.handoffs ++ [follower] → x ∈ w.handoffs ∨ x = follower := by
    intro x hx
    exact (List.mem_append.1 hx).imp_right List.mem_singleton.1
  refine { h with
    waiting := ?waiting
    nodup := ?nodup
    not_waiting := ?not_waiting
    apart := ?apart }
  case waiting =>
    intro x hx
    rcases hmem hx with hx | rfl
    · exact h.waiting hx
    · exact ⟨life, hlife, hkept⟩
  case nodup =>
    rw [List.map_append, List.nodup_append]
    refine ⟨h.nodup, List.pairwise_singleton _ _, ?_⟩
    intro x hx y hy heq
    obtain ⟨follower', hfollower', rfl⟩ := List.mem_map.1 hx
    rw [List.map_singleton, List.mem_singleton] at hy
    exact hwaiting follower' hfollower' (heq.trans hy)
  case not_waiting =>
    intro who r hwho x hx
    rcases hmem hx with hx | rfl
    · exact h.not_waiting hwho x hx
    · rintro rfl
      cases hserving.symm.trans hwho
  case apart =>
    intro x hx
    rcases hmem hx with hx | rfl
    · exact h.apart hx
    · exact hnone

/-- A turn that nobody notices. -/
theorem Sound.idle (h : Sound admits v w n items) {queries : Scheduler} (hwf : queries.Wf)
    (hserving : ∀ x, queries.serving x = w.queries.serving x) :
    Sound admits v { w with queries } n items :=
  h.shrink rfl hwf h.monitors h.settled (List.Sublist.refl _)
    (fun {x _} hx => ⟨(hserving x).symm.trans hx, rfl⟩) (fun _ _ => rfl) (fun hx => ⟨hx, rfl⟩)

theorem lifeOf_eose {x : Recipient} :
    lifeOf x (items ++ [Delivery.eose who].map .sent) = lifeOf x items := by
  apply lifeOf_sent_of_quiet
  intro d hd
  cases List.mem_singleton.1 hd
  exact ⟨rfl, rfl⟩

/-- A turn of a replay that becomes complete. -/
theorem Sound.complete (h : Sound admits v w n items) {r : Replay} {slice : Replay.Slice}
    {turn : Scheduler.Turn} (hwf : turn.scheduler.Wf)
    (hturned : Scheduler.Turned w.queries v who r slice turn) (hend : slice.outcome = .ok true)
    (hgone : turn.scheduler.serving who = none) :
    Sound admits v { w with
        queries := turn.scheduler
        handoffs := w.handoffs ++ [slice.replay.follower] } n
      (items ++ ((r.deliveredSince slice.replay).map (fun seq => Delivery.event who seq)
        ++ [Delivery.eose slice.replay.follower.sub.toRecipient]).map .sent) := by
  obtain ⟨life, hlife, hreplaying⟩ := h.replaying hturned.serving
  have hwho : slice.replay.follower.sub.toRecipient = who := by
    rw [hturned.served.follower_eq]
    exact h.queries.recipient_of_serving hturned.serving
  have hwaiting := h.not_waiting hturned.serving
  have hnone := h.not_followed hturned.serving
  -- the subscription leaves the scheduler, with all it has got by replay, and joins the queue
  have hleft : Sound admits v { w with queries := turn.scheduler } n
      (items ++ ((r.deliveredSince slice.replay).map fun seq => Delivery.event who seq).map .sent) := by
    refine h.shrink rfl hwf h.monitors h.settled (List.Sublist.refl _) ?_ ?_ ?_
    · intro x r' hx
      have hne : x ≠ who := by
        rintro rfl
        cases hgone.symm.trans hx
      exact ⟨(hturned.others x hne).symm.trans hx, lifeOf_events.trans (if_neg hne)⟩
    · intro follower hmem
      exact lifeOf_events.trans (if_neg (hwaiting follower hmem))
    · intro x monitor hx
      have hne : x ≠ who := by
        rintro rfl
        cases hnone.symm.trans hx
      exact ⟨hx, lifeOf_events.trans (if_neg hne)⟩
  rw [List.map_append, ← List.append_assoc]
  refine Sound.of_lifeOf (hleft.enqueue ?_ (hreplaying.finish hturned.served hend) ?_ ?_ ?_)
    fun _ => lifeOf_eose
  · rw [hwho, lifeOf_events, if_pos rfl, hlife, Option.map_some]
  · rw [hwho]
    exact hgone
  · rw [hwho]
    exact hwaiting
  · rw [hwho]
    exact hnone

/-- A turn of a replay that waits for another. -/
theorem Sound.pause (h : Sound admits v w n items) {r : Replay} {slice : Replay.Slice}
    {turn : Scheduler.Turn} (hwf : turn.scheduler.Wf)
    (hturned : Scheduler.Turned w.queries v who r slice turn)
    (hstays : turn.scheduler.serving who = some slice.replay) :
    Sound admits v { w with queries := turn.scheduler } n
      (items ++ ((r.deliveredSince slice.replay).map fun seq => Delivery.event who seq).map .sent) := by
  obtain ⟨life, hlife, hreplaying⟩ := h.replaying hturned.serving
  refine h.serve hwf (fun x => ?_) (h.not_waiting hturned.serving) (h.not_followed hturned.serving) ?_
    (hreplaying.served hturned.served) (fun x hx => lifeOf_events.trans (if_neg hx))
  · split
    · rename_i hx
      rw [hx, hstays]
    · rename_i hx
      exact hturned.others x hx
  · rw [lifeOf_events, if_pos rfl, hlife, Option.map_some]

/-! ### Handoff -/

theorem lifeOf_passedOn {passed : List (Nat × Event)} :
    lifeOf who (items ++ (passedOn follower passed).map .sent)
      = if who = follower.sub.toRecipient then (lifeOf who items).map fun life => { life with
          live := life.live ++ (passed.filter fun x => follower.sub.filters.accepts x.2).map Prod.fst }
        else lifeOf who items := by
  split
  · rename_i hwho
    rw [lifeOf_sent]
    congr 1
    funext life
    have hreplayed : (passedOn follower passed).flatMap (·.replayedTo who) = [] := by
      rw [passedOn, List.flatMap_map]
      exact List.flatMap_eq_nil_iff.2 fun _ _ => rfl
    have hlive : (passedOn follower passed).flatMap (·.liveTo who)
        = (passed.filter fun x => follower.sub.filters.accepts x.2).map Prod.fst := by
      rw [passedOn, List.flatMap_map, ← hwho, List.map_eq_flatMap]
      apply List.flatMap_congr
      intro x _
      show List.replicate ([who].count who) x.1 = [x.1]
      rw [List.count_singleton_self]
      rfl
    rw [Life.after, hreplayed, hlive, List.append_nil]
  · rename_i hwho
    apply lifeOf_sent_of_quiet
    intro d hd
    obtain ⟨x, -, rfl⟩ := List.mem_map.1 hd
    refine ⟨rfl, ?_⟩
    show List.replicate ([follower.sub.toRecipient].count who) x.1 = []
    rw [List.count_singleton, if_neg]
    · rfl
    · intro heq
      exact hwho (eq_of_beq heq).symm

/-- A subscription in the handoff queue that is given a stretch of the events. -/
theorem Kept.passOn {passed more : List (Nat × Event)}
    (h : Kept admits v n follower.watermark life follower)
    (hafter : v.eventsAfter follower.watermark = passed ++ more) (hle : follower.watermark ≤ b)
    (hmax : b ≤ max life.watermark n) (hpassed : ∀ x ∈ passed, x.1 ≤ b)
    (hmore : ∀ x ∈ more, b < x.1) :
    Kept admits v n b { life with
        live := life.live ++ (passed.filter fun x => follower.sub.filters.accepts x.2).map Prod.fst }
      { follower with watermark := b } where
  sub_eq := h.sub_eq
  le_latest := h.le_latest
  le := Nat.le_trans h.le hle
  le_max := hmax
  live := by
    have hfilter : (passed.filter fun x => follower.sub.filters.accepts x.2)
        = passed.filter fun x => life.watermark < x.1 && life.sub.filters.accepts x.2 := by
      apply List.filter_congr
      intro x hx
      have hmem : (x.1, x.2) ∈ v.eventsAfter follower.watermark :=
        hafter ▸ List.mem_append_left _ hx
      have hlt : life.watermark < x.1 := Nat.lt_of_le_of_lt h.le (View.mem_eventsAfter.1 hmem).2
      rw [decide_eq_true hlt, Bool.true_and, h.sub_eq]
    have hlive : v.between life.watermark b life.sub.filters = _ :=
      View.between_eq_append hafter hle hpassed hmore
    rw [hlive, hfilter, h.live]
  replayed := h.replayed

/-- Where the monitors are behind, a subscription stands where they do. -/
theorem Kept.settle (h : Kept admits v n follower.watermark life follower)
    (hle : n ≤ follower.watermark) : Kept admits v n n life follower := by
  refine { h with live := ?_ }
  rw [h.live]
  -- a watermark above the position can only be the one the subscription was taken on with
  rcases Nat.lt_or_ge life.watermark n with hlt | hge
  · have hmax := h.le_max
    have heq : follower.watermark = n := by omega
    rw [heq]
  · have hmax := h.le_max
    rw [View.between_eq_nil (b := n) hge, View.between_eq_nil (by omega)]

/-- Nobody else in the handoff queue has the name of its head. -/
theorem Sound.ne_head {rest : List Follower}
    (h : Sound admits v { w with handoffs := follower :: rest } n items) :
    ∀ x ∈ rest, x.sub.toRecipient ≠ follower.sub.toRecipient := by
  intro x hx heq
  exact (List.nodup_cons.1 h.nodup).1 (List.mem_map.2 ⟨x, hx, heq⟩)

/-- The head of the handoff queue gets on. -/
theorem Sound.replaceHead {rest : List Follower} {items' : List Item} {follower' : Follower}
    (h : Sound admits v { w with handoffs := follower :: rest } n items)
    (hsame : follower'.sub = follower.sub)
    (hlife : lifeOf follower.sub.toRecipient items' = some life)
    (hkept : Kept admits v n follower'.watermark life follower')
    (hothers : ∀ x, x ≠ follower.sub.toRecipient → lifeOf x items' = lifeOf x items) :
    Sound admits v { w with handoffs := follower' :: rest } n items' := by
  -- the queue keeps its names, which is all that keeps it apart from the others
  have hmem : ∀ {x}, x ∈ follower' :: rest →
      ∃ y ∈ follower :: rest, x.sub.toRecipient = y.sub.toRecipient := by
    intro x hx
    rcases List.mem_cons.1 hx with rfl | hx
    · exact ⟨follower, List.mem_cons_self, by rw [hsame]⟩
    · exact ⟨x, List.mem_cons_of_mem _ hx, rfl⟩
  refine { h with
    replaying := ?replaying
    waiting := ?waiting
    followed := ?followed
    nodup := ?nodup
    not_waiting := ?not_waiting
    apart := ?apart }
  case replaying =>
    intro x r hx
    rw [hothers x (h.not_waiting hx follower List.mem_cons_self).symm]
    exact h.replaying hx
  case waiting =>
    intro x hx
    rcases List.mem_cons.1 hx with rfl | hx
    · rw [hsame]
      exact ⟨life, hlife, hkept⟩
    · rw [hothers _ (h.ne_head x hx)]
      exact h.waiting (List.mem_cons_of_mem _ hx)
  case followed =>
    intro x monitor hx
    have hne : x ≠ follower.sub.toRecipient := by
      rintro rfl
      cases (h.apart List.mem_cons_self).symm.trans hx
    rw [hothers x hne]
    exact h.followed hx
  case nodup =>
    show ((follower' :: rest).map fun h => h.sub.toRecipient).Nodup
    rw [List.map_cons, hsame]
    exact h.nodup
  case not_waiting =>
    intro who r hwho x hx
    obtain ⟨y, hy, heq⟩ := hmem hx
    rw [heq]
    exact h.not_waiting hwho y hy
  case apart =>
    intro x hx
    obtain ⟨y, hy, heq⟩ := hmem hx
    rw [heq]
    exact h.apart hy

/-- The head of the handoff queue is caught up. -/
theorem Sound.catchUp {rest : List Follower}
    (h : Sound admits v { w with handoffs := follower :: rest } n items) (f : Faults) :
    Sound admits v { w with handoffs := (Worker.catchUp v n f follower).1 :: rest } n
      (items ++ (Worker.catchUp v n f follower).2.1.map .sent) := by
  obtain ⟨passed, hc⟩ := caughtUp v n f follower
  generalize Worker.catchUp v n f follower = result at hc ⊢
  obtain ⟨more, hafter, hmore⟩ := hc.exists_more
  obtain ⟨life, hlife, hkept⟩ := h.waiting List.mem_cons_self
  have hsame : result.1.sub = follower.sub := by rw [hc.follower_eq]
  have hmax : result.1.watermark ≤ max life.watermark n := by
    have hle := hc.le_max
    have hmax := hkept.le_max
    omega
  have hpassed := hkept.passOn hafter hc.le hmax hc.le_watermark hmore
  rw [← hc.follower_eq] at hpassed
  rw [hc.out_eq]
  refine h.replaceHead hsame ?_ hpassed fun x hx => lifeOf_passedOn.trans (if_neg hx)
  rw [lifeOf_passedOn, if_pos rfl, hlife, Option.map_some]

/-- The head of the handoff queue goes live, unless its connection holds too many subscriptions. -/
theorem Sound.goLive {rest : List Follower}
    (h : Sound admits v { w with handoffs := follower :: rest } n items)
    (hle : n ≤ follower.watermark) :
    Sound admits v { w with monitors := (w.monitors.install follower).1, handoffs := rest } n
      items := by
  refine { h with
    monitors := h.monitors.install follower
    settled := h.settled.install h.monitors follower
    nodup := (List.nodup_cons.1 h.nodup).2
    waiting := ?waiting
    followed := ?followed
    not_waiting := ?not_waiting
    not_followed := ?not_followed
    apart := ?apart }
  case waiting =>
    intro x hx
    exact h.waiting (List.mem_cons_of_mem _ hx)
  case followed =>
    intro x monitor hx
    have hx : (w.monitors.install follower).1.get? x = some monitor := hx
    by_cases hwho : x = follower.sub.toRecipient
    · rcases Monitors.install_cases w.monitors follower with hsame | ⟨hget, -⟩
      · rw [hsame, Monitors.get?_remove, if_pos hwho] at hx
        cases hx
      · rw [hget, if_pos hwho] at hx
        cases hx
        rw [hwho]
        obtain ⟨life, hlife, hkept⟩ := h.waiting List.mem_cons_self
        exact ⟨life, hlife, hkept.settle hle⟩
    · rw [Monitors.get?_install_of_ne hwho] at hx
      exact h.followed hx
  case not_waiting =>
    intro who r hwho x hx
    exact h.not_waiting hwho x (List.mem_cons_of_mem _ hx)
  case not_followed =>
    intro who r hwho
    have hne := h.not_waiting hwho follower List.mem_cons_self
    exact (Monitors.get?_install_of_ne hne.symm).trans (h.not_followed hwho)
  case apart =>
    intro x hx
    exact (Monitors.get?_install_of_ne (h.ne_head x hx)).trans (h.apart (List.mem_cons_of_mem _ hx))

end Worker

end EventRelay
