import EventRelay.Proofs.Store.Change
import EventRelay.Proofs.Worker.Run
import EventRelay.Proofs.Worker.Whereabouts
/-!
# Courses of a worker

A course of a worker interleaves steps with changes of the store: events are stored and deleted.  A step
gets any messages, its turn pauses whenever the clock says so, and its reads fail in any way.  Along every
course the tales of all recipients are as they should be, whatever becomes of their subscriptions on the
way.

Main statement: `Course.delivery_protocol`.
-/

namespace EventRelay

namespace Worker

/-- The courses of a worker, with its record. -/
inductive Course (c : Config) : Store → Worker → List Deed → Prop
  | start {s} : s.Built (fun _ => True) → Course c s (.start c) []
  | change {s s' w deeds} : Course c s w deeds → s.Change (fun _ _ => True) true s' →
      Course c s' w deeds
  | step {s w deeds} (clock : Clock) (f : Faults) (messages : List Message) : Course c s w deeds →
      Course c s (w.step s.view clock f messages).worker (deeds ++ w.record s.view clock f messages)

variable {c : Config} {s : Store} {v : View} {w : Worker} {deeds : List Deed} {who : Recipient}

/-- A worker that has done nothing yet or whose tales fit. -/
def Underway (c : Config) (v : View) (w : Worker) (deeds : List Deed) : Prop :=
  (∃ pending, w = { start c with pending } ∧ deeds = []) ∨ ∃ n, Going v w n deeds

theorem Underway.begin (h : Underway c v w deeds) (pending : List Message) (f : Faults) :
    ∃ n, Going v ({ w with pending }.begin v f).worker n deeds := by
  rcases h with ⟨_, rfl, rfl⟩ | ⟨n, hgoing⟩
  · exact ⟨v.latestSeq, going_start (Nat.le_refl _)⟩
  · refine ⟨n, ?_⟩
    have hpending := hgoing.withPending pending
    rw [begin_of_position hpending.position hpending.le_latest]
    exact hpending.withPending []

theorem Underway.step (h : Underway c v w deeds) (hv : v.Mirrors) (clock : Clock) (f : Faults)
    (messages : List Message) :
    Underway c v (w.step v clock f messages).worker (deeds ++ w.record v clock f messages) := by
  rcases (going_upheld hv).step clock f messages (h.begin _) with ⟨hworker, hrecord⟩ | hgoing
  · rw [hworker, hrecord, List.append_nil]
    rcases h with ⟨_, rfl, hdeeds⟩ | ⟨n, hgoing⟩
    · exact .inl ⟨_, rfl, hdeeds⟩
    · exact .inr ⟨n, hgoing.withPending _⟩
  · exact .inr hgoing

theorem Course.built (h : Course c s w deeds) : s.Built fun _ => True := by
  induction h with
  | start hs => exact hs
  | change _ hchange ih => exact hchange.built ih fun _ _ _ => trivial
  | step _ _ _ _ ih => exact ih

theorem Course.underway (h : Course c s w deeds) : Underway c s.view w deeds := by
  induction h with
  | start _ => exact .inl ⟨[], rfl, rfl⟩
  | change hcourse hchange ih =>
    have hle := hchange.latestSeq_le hcourse.built fun _ _ _ => trivial
    rcases ih with hfresh | ⟨n, hgoing⟩
    · exact .inl hfresh
    · exact .inr ⟨n, hgoing.mono hle⟩
  | step clock f messages hcourse ih => exact ih.step hcourse.built.view.mirrors clock f messages

theorem Course.fits (h : Course c s w deeds) (who : Recipient) :
    (w.whereabouts who).Fits (taleOf who deeds) := by
  rcases h.underway with ⟨_, rfl, rfl⟩ | ⟨n, hgoing⟩
  · exact .nowhere .untaken
  · exact hgoing.fits who

/-- The tale of a recipient has been as it should be all along. -/
theorem Course.obeyed (h : Course c s w deeds) {before : List Deed} (hbefore : before <+: deeds) :
    (taleOf who before).Obeys := by
  rcases h.underway with ⟨_, -, rfl⟩ | ⟨n, hgoing⟩
  · rw [List.prefix_nil.1 hbefore]
    exact .untaken
  · exact hgoing.obeyed who before hbefore

/-- Taking a subscription on in place of another is to remove that one first. -/
theorem handle_newSub_of_removeSub (v : View) (p : Pass) (sub : Subscription) :
    handle v (handle v p (.removeSub sub.toRecipient)) (.newSub sub) = handle v p (.newSub sub) := by
  simp only [handle, addSub, removeSub, dropHandoff, Monitors.remove_remove, Scheduler.add_remove,
    List.filter_filter, Bool.and_self, liveSubs]

/-! ### What has been told -/

/-- The protocol of deliveries.  What a recipient is told after a message about it, up to the next one, is
told as to somebody who was taken on at the last seq stored then, and nothing is told if nobody was taken
on.  Whatever a worker has under the name of the recipient comes from that message, and a subscription that
takes the place of another is taken on as if that one had been removed before. -/
theorem Course.delivery_protocol (h : Course c s w deeds) (who : Recipient) :
    (∀ before, before <+: deeds → (∀ d ∈ before, d.concerns who = false) →
        before.flatMap (·.wordsTo who) = [])
      ∧ (∀ before d after, before ++ d :: after <+: deeds → d.concerns who = true →
        (∀ x ∈ after, x.concerns who = false) →
          (∀ follower, d.follower? = some follower →
            Protocol follower.watermark (after.flatMap (·.wordsTo who)))
          ∧ (d.follower? = none → after.flatMap (·.wordsTo who) = [])
          ∧ (before ++ d :: after = deeds →
            (w.whereabouts who).Belongs ⟨d.follower?, after.flatMap (·.wordsTo who)⟩))
      ∧ ∀ v p sub, handle v p (.newSub sub)
          = handle v (handle v p (.removeSub sub.toRecipient)) (.newSub sub) := by
  refine ⟨fun before hbefore hquiet => ?_, fun before d after hcut hd hafter => ?_,
    fun v p sub => (handle_newSub_of_removeSub v p sub).symm⟩
  · have htale : (taleOf who before).Obeys := h.obeyed hbefore
    rw [taleOf_of_quiet hquiet] at htale
    exact htale.of_untaken rfl
  · have htale : (taleOf who (before ++ d :: after)).Obeys := h.obeyed hcut
    rw [taleOf_of_split hd hafter] at htale
    refine ⟨fun follower htaken => htale.of_taken htaken, fun htaken => htale.of_untaken htaken,
      fun hall => ?_⟩
    have hfits := h.fits who
    rw [← hall, taleOf_of_split hd hafter] at hfits
    exact hfits.belongs

/-- The first note has been deleted once the second has been stored. -/
def newerNote : Store :=
  .memory (((MemoryStore.empty.insert (Replay.tagged 0x22 10 [0x61])).insert
    (Replay.tagged 0x33 20 [0x61, 0x62])).delete? 1 |>.getD .empty)

theorem change_oneNote : oneNote.Change (fun _ _ => True) true newerNote := by
  have hinsert : oneNote.Change (fun _ _ => True) true Replay.twoNotes :=
    Store.Change.refl.insert trivial (rfl : oneNote.insertWithText _ "" = _)
  exact hinsert.delete rfl (rfl : Replay.twoNotes.delete? 1 = _)

/-- Whoever has been told of the first note and, before a failure, of the second asks again. -/
def askedAgain : List Deed :=
  (start .default).record oneNote.view .unlimited .none [.newSub noteSub]
    ++ replayed.record newerNote.view .exhausted walkFault [.dbChange]
    ++ (replayed.step newerNote.view .exhausted walkFault [.dbChange]).worker.record newerNote.view
      .unlimited .none [.newSub noteSub]

theorem askedAgain_eq : askedAgain =
    [.handled (.newSub noteSub) 1 true, .sent (.event noteSub.toRecipient 1),
      .sent (.eose noteSub.toRecipient), .handled .dbChange 2 false,
      .sent (.live 2 [noteSub.toRecipient]), .handled .dbChange 2 false,
      .handled (.newSub noteSub) 2 true, .sent (.event noteSub.toRecipient 2),
      .sent (.eose noteSub.toRecipient)] := by decide +kernel

theorem course_askedAgain : ∃ w, Course .default newerNote w askedAgain := by
  have hstart : Course .default oneNote (start .default) [] :=
    .start (Store.Built.memory.memory_insert trivial)
  have hreplayed : Course .default oneNote replayed _ := hstart.step .unlimited .none [.newSub noteSub]
  have hchanged : Course .default newerNote replayed _ := hreplayed.change change_oneNote
  exact ⟨_, (hchanged.step .exhausted walkFault [.dbChange]).step .unlimited .none [.newSub noteSub]⟩

/-- The second note is told twice, first live and then by replay, but under the name of a subscription that
has taken the place of another. -/
theorem delivery_protocol_askedAgain :
    (∃ before d after, before ++ d :: after <+: askedAgain ∧ d.follower? = some ⟨noteSub, 1⟩
        ∧ after.flatMap (·.wordsTo noteSub.toRecipient) = [.event 1, .eose, .live 2]
        ∧ Protocol 1 (after.flatMap (·.wordsTo noteSub.toRecipient)))
      ∧ ∃ before d after, before ++ d :: after = askedAgain ∧ d.follower? = some ⟨noteSub, 2⟩
        ∧ after.flatMap (·.wordsTo noteSub.toRecipient) = [.event 2, .eose]
        ∧ Protocol 2 (after.flatMap (·.wordsTo noteSub.toRecipient)) := by
  obtain ⟨w, hcourse⟩ := course_askedAgain
  obtain ⟨-, htold, -⟩ := hcourse.delivery_protocol noteSub.toRecipient
  refine ⟨?_, ?_⟩
  · have hcut : askedAgain.take 0 ++ .handled (.newSub noteSub) 1 true :: (askedAgain.take 6).drop 1
        <+: askedAgain := by
      rw [askedAgain_eq]
      exact ⟨_, rfl⟩
    have hquiet : ∀ d ∈ (askedAgain.take 6).drop 1, d.concerns noteSub.toRecipient = false := by
      rw [askedAgain_eq]
      decide +kernel
    refine ⟨_, _, _, hcut, rfl, ?_, (htold _ _ _ hcut (by decide +kernel) hquiet).1 _ rfl⟩
    rw [askedAgain_eq]
    decide +kernel
  · have hcut : askedAgain.take 6 ++ .handled (.newSub noteSub) 2 true :: askedAgain.drop 7
        = askedAgain := by
      rw [askedAgain_eq]
      rfl
    have hquiet : ∀ d ∈ askedAgain.drop 7, d.concerns noteSub.toRecipient = false := by
      rw [askedAgain_eq]
      decide +kernel
    have hle : askedAgain.take 6 ++ .handled (.newSub noteSub) 2 true :: askedAgain.drop 7
        <+: askedAgain := ⟨[], (List.append_nil _).trans hcut⟩
    refine ⟨_, _, _, hcut, rfl, ?_, (htold _ _ _ hle (by decide +kernel) hquiet).1 _ rfl⟩
    rw [askedAgain_eq]
    decide +kernel

end Worker

end EventRelay
