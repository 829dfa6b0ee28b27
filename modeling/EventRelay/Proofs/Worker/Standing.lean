import EventRelay.Proofs.Monitors.Dispatch
import EventRelay.Proofs.Replay.Growth
import EventRelay.Proofs.Scheduler.Serving
import EventRelay.Proofs.Store.Between
import EventRelay.Proofs.Worker.Life
/-!
# Where subscriptions stand

A worker has a subscription in one place: it is replayed, waits in the handoff queue or is followed.
In each place its life tells what it has been sent.  While it is replayed it has got what its replay
has delivered and nothing live; afterwards it has got the answer to its group, and live all events that
it accepts from its watermark up to where it stands, which is its own watermark in the queue and the
position of the monitors once it is followed.

Main statements: `Sound.insert` (events that are stored do not matter), and `Sound.newSub`,
`Sound.removeSub` and `Sound.closeConn` for the messages.
-/

namespace EventRelay

/-- Whether the replays of a group are exact as long as only admitted events are stored. -/
def FilterGroup.IsExact (admits : Event → Prop) (g : FilterGroup) : Prop :=
  (∀ e, admits e → e.FromJson) ∧ g.IsFixed

namespace Worker

section

variable (admits : Event → Prop) (v : View)

/-- The life of a subscription that is replayed. -/
structure Replaying (life : Life) (r : Replay) : Prop where
  follower_eq : r.follower = ⟨life.sub, life.watermark⟩
  le_latest : life.watermark ≤ v.latestSeq
  replayed : life.replayed = r.delivered
  live : life.live = []
  outlook : life.sub.filters.IsExact admits →
    r.outlook v = life.sub.filters.answer v life.watermark

/-- The life of a subscription whose replay is complete and that has got all events up to `b`, where
the monitors are at `n`. -/
structure Kept (n b : Nat) (life : Life) (follower : Follower) : Prop where
  sub_eq : follower.sub = life.sub
  le_latest : life.watermark ≤ v.latestSeq
  le : life.watermark ≤ follower.watermark
  le_max : follower.watermark ≤ max life.watermark n
  live : life.live = v.between life.watermark b life.sub.filters
  replayed : life.sub.filters.IsExact admits →
    life.replayed = life.sub.filters.answer v life.watermark

/-- Every subscription of a worker has got what it should have by now. -/
structure Sound (w : Worker) (n : Nat) (items : List Item) : Prop where
  position : w.position = some n
  le_latest : n ≤ v.latestSeq
  queries : w.queries.Wf
  monitors : w.monitors.Wf
  settled : w.monitors.Settled n
  replaying : ∀ {who r}, w.queries.serving who = some r →
    ∃ life, lifeOf who items = some life ∧ Replaying admits v life r
  waiting : ∀ {h}, h ∈ w.handoffs → ∃ life, lifeOf h.sub.toRecipient items = some life
    ∧ Kept admits v n h.watermark life h
  followed : ∀ {who monitor}, w.monitors.get? who = some monitor →
    ∃ life, lifeOf who items = some life ∧ Kept admits v n n life monitor.follower
  nodup : (w.handoffs.map fun h => h.sub.toRecipient).Nodup
  not_waiting : ∀ {who r}, w.queries.serving who = some r →
    ∀ h ∈ w.handoffs, h.sub.toRecipient ≠ who
  not_followed : ∀ {who r}, w.queries.serving who = some r → w.monitors.get? who = none
  apart : ∀ {h}, h ∈ w.handoffs → w.monitors.get? h.sub.toRecipient = none

end

variable {admits : Event → Prop} {v : View} {w w' : Worker} {n b : Nat} {items items' : List Item}
  {life : Life} {follower : Follower}

/-- A worker that has done nothing yet. -/
theorem sound_start {c : Config} (hle : n ≤ v.latestSeq) {pending : List Message} :
    Sound admits v { start c with pending, position := some n } n [] where
  position := rfl
  le_latest := hle
  queries := Scheduler.wf_start
  monitors := Monitors.wf_start
  settled := Monitors.settled_start
  replaying h := by cases h
  waiting h := by cases h
  followed h := by cases h
  nodup := .nil
  not_waiting h := by cases h
  not_followed h := by cases h
  apart h := by cases h

/-- Messages that wait do not matter until they are handled. -/
theorem Sound.withPending (h : Sound admits v w n items) (pending : List Message) :
    Sound admits v { w with pending } n items where
  position := h.position
  le_latest := h.le_latest
  queries := h.queries
  monitors := h.monitors
  settled := h.settled
  replaying := h.replaying
  waiting := h.waiting
  followed := h.followed
  nodup := h.nodup
  not_waiting := h.not_waiting
  not_followed := h.not_followed
  apart := h.apart

/-! ### Storing events -/

theorem Replaying.insert {r : Replay} (h : Replaying admits v life r) (hr : r.Sound)
    (hv : v.Built admits) {e : Event} (he : admits e) : Replaying admits (v.insert e) life r where
  follower_eq := h.follower_eq
  le_latest := Nat.le_succ_of_le h.le_latest
  replayed := h.replayed
  live := h.live
  outlook hexact := by
    -- the event gets a seq above the watermark, which neither the outlook nor the answer looks at
    have hfixed : r.follower.sub.filters.IsFixed := by
      rw [h.follower_eq]
      exact hexact.2
    have hagree : v.Agree (v.insert e) r.follower.watermark := by
      rw [h.follower_eq]
      exact View.agree_insert h.le_latest
    have hbuilt := hv.mono hexact.1
    have hbuilt' := (hv.insert he).mono hexact.1
    rw [Replay.outlook_eq_of_agree hr hfixed hagree hbuilt.mirrors hbuilt.hasIdTags hbuilt'.mirrors
      hbuilt'.hasIdTags, h.outlook hexact,
      FilterGroup.answer_eq_of_agree (View.agree_insert h.le_latest)]

theorem Kept.insert (h : Kept admits v n b life follower) (hb : b ≤ v.latestSeq) (e : Event) :
    Kept admits (v.insert e) n b life follower where
  sub_eq := h.sub_eq
  le_latest := Nat.le_succ_of_le h.le_latest
  le := h.le
  le_max := h.le_max
  live := by rw [h.live, View.between_eq_of_agree (View.agree_insert hb)]
  replayed hexact := by
    rw [h.replayed hexact, FilterGroup.answer_eq_of_agree (View.agree_insert h.le_latest)]

/-- Where a subscription stands is in the store. -/
theorem Kept.watermark_le (h : Kept admits v n b life follower) (hn : n ≤ v.latestSeq) :
    follower.watermark ≤ v.latestSeq := by
  have hmax := h.le_max
  have hlatest := h.le_latest
  omega

/-- Events that are stored do not matter until they are read. -/
theorem Sound.insert (h : Sound admits v w n items) (hv : v.Built admits) {e : Event}
    (he : admits e) : Sound admits (v.insert e) w n items where
  position := h.position
  le_latest := Nat.le_succ_of_le h.le_latest
  queries := h.queries
  monitors := h.monitors
  settled := h.settled
  replaying hwho := by
    obtain ⟨life, hlife, hreplaying⟩ := h.replaying hwho
    exact ⟨life, hlife, hreplaying.insert (h.queries.sound_of_serving hwho) hv he⟩
  waiting hmem := by
    obtain ⟨life, hlife, hkept⟩ := h.waiting hmem
    exact ⟨life, hlife, hkept.insert (hkept.watermark_le h.le_latest) e⟩
  followed hwho := by
    obtain ⟨life, hlife, hkept⟩ := h.followed hwho
    exact ⟨life, hlife, hkept.insert h.le_latest e⟩
  nodup := h.nodup
  not_waiting := h.not_waiting
  not_followed := h.not_followed
  apart := h.apart

/-! ### Messages -/

/-- Taking subscriptions away does nothing to those that stay. -/
theorem Sound.shrink (h : Sound admits v w n items) (hposition : w'.position = w.position)
    (hqueries : w'.queries.Wf) (hmonitors : w'.monitors.Wf) (hsettled : w'.monitors.Settled n)
    (hhandoffs : w'.handoffs.Sublist w.handoffs)
    (hserving : ∀ {who r}, w'.queries.serving who = some r →
      w.queries.serving who = some r ∧ lifeOf who items' = lifeOf who items)
    (hwaiting : ∀ h ∈ w'.handoffs, lifeOf h.sub.toRecipient items' = lifeOf h.sub.toRecipient items)
    (hget : ∀ {who monitor}, w'.monitors.get? who = some monitor →
      w.monitors.get? who = some monitor ∧ lifeOf who items' = lifeOf who items) :
    Sound admits v w' n items' := by
  -- nobody comes to be followed
  have hnone : ∀ {who}, w.monitors.get? who = none → w'.monitors.get? who = none := by
    intro who hwho
    cases hwho' : w'.monitors.get? who with
    | none => rfl
    | some monitor => cases hwho.symm.trans (hget hwho').1
  refine { h with
    position := hposition.trans h.position
    queries := hqueries
    monitors := hmonitors
    settled := hsettled
    nodup := h.nodup.sublist (hhandoffs.map _)
    replaying := ?replaying
    waiting := ?waiting
    followed := ?followed
    not_waiting := ?not_waiting
    not_followed := ?not_followed
    apart := ?apart }
  case replaying =>
    intro who r hwho
    obtain ⟨hold, hlife⟩ := hserving hwho
    rw [hlife]
    exact h.replaying hold
  case waiting =>
    intro follower hmem
    rw [hwaiting follower hmem]
    exact h.waiting (hhandoffs.subset hmem)
  case followed =>
    intro who monitor hwho
    obtain ⟨hold, hlife⟩ := hget hwho
    rw [hlife]
    exact h.followed hold
  case not_waiting =>
    intro who r hwho follower hmem
    exact h.not_waiting (hserving hwho).1 follower (hhandoffs.subset hmem)
  case not_followed =>
    intro who r hwho
    exact hnone (h.not_followed (hserving hwho).1)
  case apart =>
    intro follower hmem
    exact hnone (h.apart (hhandoffs.subset hmem))

theorem Sound.removeSub (h : Sound admits v w n items) (who : Recipient)
    (hlife : ∀ x, x ≠ who → lifeOf x items' = lifeOf x items) :
    Sound admits v (w.removeSub who) n items' := by
  refine h.shrink rfl (h.queries.remove who) (h.monitors.remove who)
    (h.settled.remove h.monitors who) List.filter_sublist ?_ ?_ ?_
  · intro x r hx
    have hserving : (w.queries.remove who).serving x = some r := hx
    rw [h.queries.serving_remove] at hserving
    split at hserving
    · cases hserving
    · rename_i hne
      exact ⟨hserving, hlife x hne⟩
  · intro follower hmem
    exact hlife _ (of_decide_eq_true (List.mem_filter.1 hmem).2)
  · intro x monitor hx
    have hget : (w.monitors.remove who).get? x = some monitor := hx
    rw [Monitors.get?_remove] at hget
    split at hget
    · cases hget
    · rename_i hne
      exact ⟨hget, hlife x hne⟩

theorem Sound.closeConn (h : Sound admits v w n items) (conn : ConnId)
    (hlife : ∀ x, lifeOf x items' = lifeOf x items) : Sound admits v (w.closeConn conn) n items' := by
  refine h.shrink rfl (h.queries.closeConn conn) (h.monitors.closeConn conn)
    (h.settled.closeConn h.monitors conn) List.filter_sublist ?_ (fun _ _ => hlife _) ?_
  · intro x r hx
    have hserving : (w.queries.closeConn conn).serving x = some r := hx
    rw [h.queries.serving_closeConn] at hserving
    split at hserving
    · cases hserving
    · exact ⟨hserving, hlife x⟩
  · intro x monitor hx
    have hget : (w.monitors.closeConn conn).get? x = some monitor := hx
    rw [Monitors.get?_closeConn] at hget
    split at hget
    · cases hget
    · exact ⟨hget, hlife x⟩

/-- A subscription that is nowhere else can be replayed. -/
theorem Sound.serve (h : Sound admits v w n items) {who : Recipient} {r : Replay}
    {queries : Scheduler} (hqueries : queries.Wf)
    (hserving : ∀ x, queries.serving x = if x = who then some r else w.queries.serving x)
    (hwaiting : ∀ h ∈ w.handoffs, h.sub.toRecipient ≠ who) (hnone : w.monitors.get? who = none)
    (hlife : lifeOf who items' = some life) (hreplaying : Replaying admits v life r)
    (hothers : ∀ x, x ≠ who → lifeOf x items' = lifeOf x items) :
    Sound admits v { w with queries } n items' := by
  have hcases : ∀ {x r'}, queries.serving x = some r' →
      x = who ∧ r' = r ∨ x ≠ who ∧ w.queries.serving x = some r' := by
    intro x r' hx
    rw [hserving] at hx
    split at hx
    · rename_i heq
      cases hx
      exact .inl ⟨heq, rfl⟩
    · rename_i hne
      exact .inr ⟨hne, hx⟩
  refine { h with
    queries := hqueries
    replaying := ?replaying
    waiting := ?waiting
    followed := ?followed
    not_waiting := ?not_waiting
    not_followed := ?not_followed }
  case replaying =>
    intro x r' hx
    rcases hcases hx with ⟨rfl, rfl⟩ | ⟨hne, hx⟩
    · exact ⟨life, hlife, hreplaying⟩
    · rw [hothers x hne]
      exact h.replaying hx
  case waiting =>
    intro follower hmem
    rw [hothers _ (hwaiting follower hmem)]
    exact h.waiting hmem
  case followed =>
    intro x monitor hx
    have hne : x ≠ who := by
      rintro rfl
      cases hnone.symm.trans hx
    rw [hothers x hne]
    exact h.followed hx
  case not_waiting =>
    intro x r' hx
    rcases hcases hx with ⟨rfl, -⟩ | ⟨-, hx⟩
    · exact hwaiting
    · exact h.not_waiting hx
  case not_followed =>
    intro x r' hx
    rcases hcases hx with ⟨rfl, -⟩ | ⟨-, hx⟩
    · exact hnone
    · exact h.not_followed hx

/-- A subscription that has just been taken on. -/
theorem replaying_start (hv : v.Built admits) {sub : Subscription} {cap : UInt64} {logScans : Bool} :
    Replaying admits v (Life.start sub v.latestSeq)
      (Replay.start ⟨sub, v.latestSeq⟩ cap logScans) where
  follower_eq := rfl
  le_latest := Nat.le_refl _
  replayed := rfl
  live := rfl
  outlook hexact :=
    have hbuilt := hv.mono hexact.1
    Replay.outlook_start_eq_answer hexact.2 hbuilt.mirrors hbuilt.hasIdTags

/-- Only what happens to the subscriptions themselves matters. -/
theorem Sound.of_lifeOf (h : Sound admits v w n items)
    (hlife : ∀ who, lifeOf who items' = lifeOf who items) : Sound admits v w n items' :=
  h.shrink rfl h.queries h.monitors h.settled (List.Sublist.refl _) (fun hwho => ⟨hwho, hlife _⟩)
    (fun _ _ => hlife _) (fun hwho => ⟨hwho, hlife _⟩)

theorem lifeOf_notice {who : Recipient} {conn : ConnId} :
    lifeOf who (items ++ [Delivery.tooManySubs conn].map .sent) = lifeOf who items := by
  apply lifeOf_sent_of_quiet
  intro d hd
  cases List.mem_singleton.1 hd
  exact ⟨rfl, rfl⟩

/-- A subscription that is taken on has a new life. -/
theorem Sound.newSub (h : Sound admits v w n items) (hv : v.Built admits) (sub : Subscription) (live : Nat) :
    Sound admits v { w.removeSub sub.toRecipient with
        queries := (w.queries.add sub v.latestSeq live).1 } n
      (items ++ [.handled (.newSub sub) v.latestSeq]) := by
  -- first the name is cleared everywhere, then a replay is started under it
  have hcleared : Sound admits v (w.removeSub sub.toRecipient) n
      (items ++ [.handled (.newSub sub) v.latestSeq]) := by
    refine h.removeSub _ fun x hx => ?_
    rw [lifeOf_newSub, if_neg fun heq => hx heq.symm]
  rcases h.queries.add_cases sub v.latestSeq live with ⟨-, heq⟩ | ⟨-, hwf, cap, logScans, hserving⟩
  · rw [heq]
    exact hcleared
  · have hserving' : ∀ x, (w.queries.add sub v.latestSeq live).1.serving x =
        if x = sub.toRecipient then some (Replay.start ⟨sub, v.latestSeq⟩ cap logScans)
        else (w.queries.remove sub.toRecipient).serving x := by
      intro x
      rw [hserving, h.queries.serving_remove]
      split
      · rfl
      · rfl
    refine hcleared.serve hwf hserving' ?_ ?_ ?_ (replaying_start hv) (fun _ _ => rfl)
    · intro follower hmem
      exact of_decide_eq_true (List.mem_filter.1 hmem).2
    · exact Monitors.get?_remove.trans (if_pos rfl)
    · rw [lifeOf_newSub, if_pos rfl]

end Worker

end EventRelay
