import EventRelay.Proofs.Worker.Capacity
/-!
# Undisturbed steps

Where no read fails, a step handles all the messages at hand, and news of the store takes the monitors to
its end.  A worker that is idle follows everybody whom it has taken on.

Main statements: `position_step`, `Course.followed_of_idle` and `lifeOf_of_quiet` (the life of a subscription
that no message has been about since).
-/

namespace EventRelay

namespace Worker

variable {v : View} {clock : Clock} {w : Worker} {p : Pass} {who : Recipient} {ms : List Message}
  {f : Faults}

/-! ### Messages -/

/-- What a message does to the position, and to what is left to do, where no read fails. -/
theorem handle_undisturbed (hfaults : p.faults = .none) (m : Message) :
    (handle v p m).faults = .none ∧ (handle v p m).worker.pending = p.worker.pending
      ∧ (handle v p m).worker.position
        = if m = .dbChange then some v.latestSeq else p.worker.position := by
  cases m with
  | newSub sub =>
    rw [handle, addSub]
    simp only
    split
    · exact ⟨hfaults, rfl, rfl⟩
    · exact ⟨hfaults, rfl, rfl⟩
  | removeSub who => exact ⟨hfaults, rfl, rfl⟩
  | closeConn conn => exact ⟨hfaults, rfl, rfl⟩
  | dbChange =>
    have hwalk : p.faults.walk .eventsAfter (v.eventsAfter (p.worker.position.getD v.latestSeq))
        = (v.eventsAfter (p.worker.position.getD v.latestSeq), none, .none) := by
      rw [hfaults]
      rfl
    simp [handle, dispatch, hwalk, Pass.send]

theorem handleAll_undisturbed (hfaults : p.faults = .none) :
    (ms.foldl (handle v) p).worker.pending = p.worker.pending
      ∧ (ms.foldl (handle v) p).worker.position
        = if .dbChange ∈ ms then some v.latestSeq else p.worker.position := by
  induction ms generalizing p with
  | nil => exact ⟨rfl, (if_neg List.not_mem_nil).symm⟩
  | cons m rest ih =>
    obtain ⟨hnone, hpending, hposition⟩ := handle_undisturbed (v := v) hfaults m
    obtain ⟨hpending', hposition'⟩ := ih hnone
    refine ⟨hpending'.trans hpending, ?_⟩
    rw [List.foldl_cons, hposition', hposition]
    by_cases hm : m = .dbChange
    · rw [if_pos hm, ite_self, if_pos (List.mem_cons.2 (.inl hm.symm))]
    · have hmem : .dbChange ∈ m :: rest ↔ .dbChange ∈ rest :=
        List.mem_cons.trans (or_iff_right fun heq => hm heq.symm)
      rw [if_neg hm]
      simp only [hmem]

/-! ### Steps -/

/-- A turn leaves messages and position alone. -/
theorem rest_runQuery : (runQuery v clock p).worker.pending = p.worker.pending
    ∧ (runQuery v clock p).worker.position = p.worker.position := by
  simp only [runQuery]
  split
  · exact ⟨rfl, rfl⟩
  · exact ⟨rfl, rfl⟩
  · exact ⟨rfl, rfl⟩

/-- The handoff queue leaves messages and position alone. -/
theorem rest_install {position : Nat} {fs : List Follower} :
    (install v position p fs).worker.pending = p.worker.pending
      ∧ (install v position p fs).worker.position = p.worker.position := by
  induction fs generalizing p with
  | nil => exact ⟨rfl, rfl⟩
  | cons follower rest ih =>
    rw [install]
    simp only
    split
    · exact ⟨rfl, rfl⟩
    · split
      · exact ih
      · exact ih

theorem step_none : w.step v clock .none ms
    = { w with pending := w.pending ++ ms }.stepIn v clock .none := rfl

/-- A step handles all messages. -/
theorem pending_step : (w.step v clock .none ms).worker.pending = [] := by
  rw [step_none]
  refine rest_install.1.trans (rest_runQuery.1.trans ?_)
  exact (handleAll_undisturbed rfl).1

/-- News of the store takes the monitors to its end. -/
theorem position_step : (w.step v clock .none ms).worker.position =
    some (if .dbChange ∈ w.pending ++ ms then v.latestSeq else w.positionIn v) := by
  rw [step_none]
  refine rest_install.2.trans (rest_runQuery.2.trans ?_)
  rw [(handleAll_undisturbed rfl).2, apply_ite some]
  rfl

/-! ### Records -/

theorem concerns_recordOf (h : ∀ m ∈ ms, m.concerns who = false) :
    ∀ d ∈ recordOf v p ms, d.concerns who = false := by
  induction ms generalizing p with
  | nil => exact fun _ hd => absurd hd List.not_mem_nil
  | cons m rest ih =>
    obtain ⟨hm, hrest⟩ := List.forall_mem_cons.1 h
    intro d hd
    rcases List.mem_cons.1 hd with rfl | hd
    · exact hm
    rcases List.mem_append.1 hd with hd | hd
    · obtain ⟨_, -, rfl⟩ := List.mem_map.1 hd
      rfl
    · exact ih hrest d hd

/-- A step whose messages are not about a recipient has nothing about it in its record. -/
theorem concerns_record (h : ∀ m ∈ w.pending ++ ms, m.concerns who = false) :
    ∀ d ∈ w.record v clock .none ms, d.concerns who = false := by
  intro d hd
  rcases List.mem_append.1 hd with hd | hd
  · exact concerns_recordOf h d hd
  · obtain ⟨_, -, rfl⟩ := List.mem_map.1 hd
    rfl

/-- A recipient is told what the record says. -/
theorem words_record :
    (w.record v clock f ms).flatMap (·.wordsTo who)
      = (w.step v clock f ms).out.flatMap (·.wordsTo who) := by
  have hwords : ∀ deeds : List Deed, deeds.flatMap (·.wordsTo who)
      = ((deeds.map Deed.item).filterMap Item.delivery?).flatMap (·.wordsTo who) := by
    intro deeds
    induction deeds with
    | nil => rfl
    | cons d rest ih =>
      cases d with
      | handled m latest taken => exact ih
      | sent d => exact congrArg (d.wordsTo who ++ ·) ih
  rw [hwords, map_item_record, sent_transcript]

/-! ### Whom an idle worker follows -/

/-- An idle worker follows whom it has taken on. -/
theorem Course.followed_of_idle {c : Config} {s : Store} {deeds : List Deed} (h : Course c s w deeds)
    (hidle : w.isIdle = true) (htaken : (taleOf who deeds).taken ≠ none) :
    ∃ monitor, w.monitors.get? who = some monitor := by
  simp only [isIdle, Bool.and_eq_true] at hidle
  obtain ⟨⟨hqueries, -⟩, hhandoffs⟩ := hidle
  rcases h.roomy with ⟨_, -, rfl⟩ | ⟨n, hcapped⟩
  · exact absurd rfl htaken
  cases hmonitor : w.monitors.get? who with
  | some monitor => exact ⟨monitor, rfl⟩
  | none =>
    refine absurd ?_ (hcapped.held who htaken)
    rw [whereabouts, hcapped.going.queries.serving_of_isIdle hqueries, List.isEmpty_iff.1 hhandoffs,
      hmonitor]
    rfl

end Worker

/-! ### Lives -/

namespace Word

/-- The seq of a stored event. -/
def stored? : Word → Option Nat
  | .event seq => some seq
  | _ => none

/-- The seq of a new event. -/
def live? : Word → Option Nat
  | .live seq => some seq
  | _ => none

/-- The seq of an event. -/
def seq? : Word → Option Nat
  | .event seq => some seq
  | .live seq => some seq
  | .eose => none

theorem perm_filterMap_seq? (words : List Word) :
    (words.filterMap seq?).Perm (words.filterMap stored? ++ words.filterMap live?) := by
  induction words with
  | nil => exact .refl _
  | cons word rest ih =>
    cases word with
    | event seq => exact ih.cons seq
    | live seq => exact (ih.cons seq).trans List.perm_middle.symm
    | eose => exact ih

end Word

section

variable {who : Recipient}

theorem Delivery.replayedTo_eq (d : Delivery) :
    d.replayedTo who = (d.wordsTo who).filterMap Word.stored? := by
  cases d with
  | event x seq =>
    simp only [replayedTo, wordsTo]
    split <;> rfl
  | eose x =>
    simp only [replayedTo, wordsTo]
    split <;> rfl
  | live seq whos =>
    refine (List.filterMap_eq_nil_iff.2 fun word hword => ?_).symm
    rw [List.eq_of_mem_replicate hword]
    rfl
  | notice conn text => rfl

theorem Delivery.liveTo_eq (d : Delivery) : d.liveTo who = (d.wordsTo who).filterMap Word.live? := by
  cases d with
  | event x seq =>
    simp only [liveTo, wordsTo]
    split <;> rfl
  | eose x =>
    simp only [liveTo, wordsTo]
    split <;> rfl
  | live seq whos =>
    have hlive : Word.live? (.live seq) = some seq := rfl
    exact (List.filterMap_replicate_of_some hlive).symm
  | notice conn text => rfl

/-- A life goes on with what is said to its recipient, as long as no message is about it. -/
theorem Life.step_of_quiet {d : Deed} (hd : d.concerns who = false) (life : Life) :
    Life.step who (some life) d.item = some { life with
      replayed := life.replayed ++ (d.wordsTo who).filterMap Word.stored?
      live := life.live ++ (d.wordsTo who).filterMap Word.live? } := by
  cases d with
  | handled m latest taken =>
    have hlife : Life.step who (some life) (.handled m latest) = some life := by
      cases m with
      | newSub sub' => exact if_neg (of_decide_eq_false hd)
      | _ => rfl
    refine hlife.trans ?_
    simp [Deed.wordsTo]
  | sent d =>
    show some (life.after who [d]) = _
    rw [Life.after, List.flatMap_singleton, List.flatMap_singleton, Delivery.replayedTo_eq,
      Delivery.liveTo_eq]
    rfl

theorem Life.foldl_step_of_quiet {deeds : List Deed} (hquiet : ∀ d ∈ deeds, d.concerns who = false)
    (life : Life) :
    (deeds.map Deed.item).foldl (Life.step who) (some life) = some { life with
      replayed := life.replayed ++ (deeds.flatMap (·.wordsTo who)).filterMap Word.stored?
      live := life.live ++ (deeds.flatMap (·.wordsTo who)).filterMap Word.live? } := by
  induction deeds generalizing life with
  | nil => simp
  | cons d rest ih =>
    obtain ⟨hd, hrest⟩ := List.forall_mem_cons.1 hquiet
    rw [List.map_cons, List.foldl_cons, Life.step_of_quiet hd, ih hrest]
    simp only [List.flatMap_cons, List.filterMap_append, List.append_assoc]

/-- The life of a subscription is what has been said to it, as long as no other message is about it. -/
theorem lifeOf_of_quiet {sub : Subscription} {latest : Nat} {taken : Bool} {deeds : List Deed}
    (hquiet : ∀ d ∈ deeds, d.concerns sub.toRecipient = false) :
    lifeOf sub.toRecipient ((.handled (.newSub sub) latest taken :: deeds).map Deed.item)
      = some ⟨sub, latest, (deeds.flatMap (·.wordsTo sub.toRecipient)).filterMap Word.stored?,
        (deeds.flatMap (·.wordsTo sub.toRecipient)).filterMap Word.live?⟩ := by
  have hfirst : Life.step sub.toRecipient none (Deed.handled (.newSub sub) latest taken).item
      = some (.start sub latest) := if_pos rfl
  rw [lifeOf, List.map_cons, List.foldl_cons, hfirst, Life.foldl_step_of_quiet hquiet]
  simp [Life.start]

end

end EventRelay
