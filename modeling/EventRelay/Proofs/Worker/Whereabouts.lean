import EventRelay.Proofs.Monitors.Dispatch
import EventRelay.Proofs.Replay.Account
import EventRelay.Proofs.Worker.Steps
import EventRelay.Proofs.Worker.Tale
/-!
# Whereabouts and tales

A worker has a subscription in one place at most: it is replayed, waits in the handoff queue or is followed.
Its tale fits the place.  While it is replayed it has been told just what its own replay has delivered; in
the queue and afterwards it has been told that the stored events are complete, and new events up to its
watermark only.  Nothing is asked of the store but that it gives out ascending seqs: events may be deleted
at any time.

Main statement: `going_upheld` (every piece of work keeps the tales fitting).
-/

namespace EventRelay

/-- Where a worker has a recipient. -/
structure Whereabouts where
  replay : Option Replay
  waiting : List Follower
  monitor : Option Monitor

namespace Whereabouts

def nowhere : Whereabouts := ⟨none, [], none⟩

/-- Whether the tale of a recipient fits the place where a worker has it. -/
inductive Fits : Whereabouts → Tale → Prop
  | nowhere {t} : t.Obeys → Fits .nowhere t
  | replayed {r : Replay} : r.Sound → (∀ seq ∈ r.delivered, seq ≤ r.follower.watermark) →
      Fits ⟨some r, [], none⟩ ⟨some r.follower, r.delivered.map .event⟩
  | waiting {follower watermark words} : Caught watermark follower.watermark words →
      Fits ⟨none, [follower], none⟩ ⟨some ⟨follower.sub, watermark⟩, words⟩
  | followed {monitor watermark words} : Caught watermark monitor.follower.watermark words →
      Fits ⟨none, [], some monitor⟩ ⟨some ⟨monitor.follower.sub, watermark⟩, words⟩

theorem Fits.obeys {place : Whereabouts} {t : Tale} (h : Fits place t) : t.Obeys := by
  cases h with
  | nowhere hobeys => exact hobeys
  | @replayed r hr hle =>
    have hnodup : r.delivered.Nodup := List.nodup_reverse.2 hr.tally.nodup_sent
    exact .taken ⟨⟨r.delivered, false, []⟩, List.append_nil _, hnodup, hle, .nil,
      fun _ h => absurd h List.not_mem_nil⟩
  | waiting hcaught => exact .taken hcaught.protocol
  | followed hcaught => exact .taken hcaught.protocol

/-- Whether all that a worker has under the name of a recipient is of the subscription that its tale says
was taken on. -/
structure Belongs (place : Whereabouts) (t : Tale) : Prop where
  replay : ∀ r, place.replay = some r → t = ⟨some r.follower, r.delivered.map .event⟩
  waiting : ∀ f ∈ place.waiting, ∃ watermark, t.taken = some ⟨f.sub, watermark⟩
  monitor : ∀ m, place.monitor = some m → ∃ watermark, t.taken = some ⟨m.follower.sub, watermark⟩

theorem Fits.belongs {place : Whereabouts} {t : Tale} (h : Fits place t) : place.Belongs t := by
  refine ⟨fun r hr => ?_, fun f hf => ?_, fun m hm => ?_⟩
  · cases h with
    | replayed _ _ =>
      cases hr
      rfl
    | _ => cases hr
  · cases h with
    | @waiting follower watermark _ _ =>
      rw [List.mem_singleton.1 hf]
      exact ⟨watermark, rfl⟩
    | _ => exact absurd hf List.not_mem_nil
  · cases h with
    | @followed monitor watermark _ _ =>
      cases hm
      exact ⟨watermark, rfl⟩
    | _ => cases hm

end Whereabouts

namespace Worker

open Whereabouts (Fits nowhere)

/-- Where a worker has a recipient. -/
def whereabouts (w : Worker) (who : Recipient) : Whereabouts :=
  ⟨w.queries.serving who, w.handoffs.filter fun h => h.sub.toRecipient = who, w.monitors.get? who⟩

/-- The tales of all recipients fit where a worker has them, and have been as they should be all along. -/
structure Going (v : View) (w : Worker) (n : Nat) (deeds : List Deed) : Prop where
  position : w.position = some n
  le_latest : n ≤ v.latestSeq
  queries : w.queries.Wf
  monitors : w.monitors.Wf
  settled : w.monitors.Settled n
  fits : ∀ who, Fits (w.whereabouts who) (taleOf who deeds)
  obeyed : ∀ who before, before <+: deeds → (taleOf who before).Obeys

variable {v : View} {w w' : Worker} {n n' : Nat} {deeds : List Deed} {who : Recipient}
  {follower : Follower}

/-- A worker that has done nothing yet. -/
theorem going_start {c : Config} {pending : List Message} (hle : n ≤ v.latestSeq) :
    Going v { start c with pending, position := some n } n [] where
  position := rfl
  le_latest := hle
  queries := Scheduler.wf_start
  monitors := Monitors.wf_start
  settled := Monitors.settled_start
  fits _ := .nowhere .untaken
  obeyed _ before hbefore := by
    rw [List.prefix_nil.1 hbefore]
    exact .untaken

theorem Going.withPending (h : Going v w n deeds) (pending : List Message) :
    Going v { w with pending } n deeds :=
  ⟨h.position, h.le_latest, h.queries, h.monitors, h.settled, h.fits, h.obeyed⟩

/-- What is stored or deleted does not matter until it is read. -/
theorem Going.mono (h : Going v w n deeds) {v' : View} (hle : v.latestSeq ≤ v'.latestSeq) :
    Going v' w n deeds :=
  { h with le_latest := Nat.le_trans h.le_latest hle }

/-- A worker that has sent something. -/
theorem Going.sent (h : Going v w n deeds) {ds : List Delivery} (hposition : w'.position = some n')
    (hle : n' ≤ v.latestSeq) (hqueries : w'.queries.Wf) (hmonitors : w'.monitors.Wf)
    (hsettled : w'.monitors.Settled n')
    (hfits : ∀ who, Fits (w'.whereabouts who)
      ((taleOf who deeds).tell (ds.flatMap (·.wordsTo who)))) :
    Going v w' n' (deeds ++ ds.map .sent) := by
  have hfits : ∀ who, Fits (w'.whereabouts who) (taleOf who (deeds ++ ds.map .sent)) := by
    intro who
    rw [taleOf_sent]
    exact hfits who
  exact ⟨hposition, hle, hqueries, hmonitors, hsettled, hfits,
    fun who => obeys_sent (h.obeyed who) (hfits who).obeys⟩

/-- Who has been told nothing and is where it was. -/
theorem Going.fits_of_quiet (h : Going v w n deeds) {words : List Word} (hwords : words = [])
    (hplace : w'.whereabouts who = w.whereabouts who) :
    Fits (w'.whereabouts who) ((taleOf who deeds).tell words) := by
  rw [hwords, Tale.tell_nil, hplace]
  exact h.fits who

/-- A notice tells no recipient anything. -/
theorem Going.notice (h : Going v w n deeds) (conn : ConnId) :
    Going v w n (deeds ++ [.sent (.tooManySubs conn)]) :=
  @Going.sent v w w n n deeds h [.tooManySubs conn] h.position h.le_latest h.queries h.monitors h.settled
    fun _ => h.fits_of_quiet rfl rfl

/-! ### Messages -/

/-- A message moves nobody but those it is about. -/
theorem Going.message (h : Going v w n deeds) {m : Message} {latest : Nat}
    {taken : Bool} (hposition : w'.position = w.position) (hqueries : w'.queries.Wf)
    (hmonitors : w'.monitors.Wf) (hsettled : w'.monitors.Settled n)
    (hothers : ∀ who, m.concerns who = false → w'.whereabouts who = w.whereabouts who)
    (hconcerned : ∀ who, m.concerns who = true →
      Fits (w'.whereabouts who) ⟨(Deed.handled m latest taken).follower?, []⟩) :
    Going v w' n (deeds ++ [.handled m latest taken]) := by
  refine ⟨hposition.trans h.position, h.le_latest, hqueries, hmonitors, hsettled, fun who => ?_,
    fun who => obeys_handled (h.obeyed who)⟩
  rw [taleOf_concat, Tale.step]
  split
  · rename_i hm
    exact hconcerned who hm
  · rename_i hm
    rw [hothers who (Bool.eq_false_iff.2 hm)]
    exact Tale.tell_nil.symm ▸ h.fits who

/-- Where recipients are when some have been taken away. -/
theorem whereabouts_cut {gone : Recipient → Bool}
    (hserving : w'.queries.serving who = if gone who then none else w.queries.serving who)
    (hhandoffs : w'.handoffs = w.handoffs.filter fun h => !gone h.sub.toRecipient)
    (hget : w'.monitors.get? who = if gone who then none else w.monitors.get? who) :
    w'.whereabouts who = if gone who then nowhere else w.whereabouts who := by
  have hwaiting : (w'.handoffs.filter fun h => h.sub.toRecipient = who)
      = if gone who then [] else w.handoffs.filter fun h => h.sub.toRecipient = who := by
    rw [hhandoffs, List.filter_filter]
    split
    · rename_i hgone
      refine List.filter_eq_nil_iff.2 fun h _ htest => ?_
      obtain ⟨hwho, hstays⟩ := Bool.and_eq_true_iff.1 htest
      rw [of_decide_eq_true hwho, hgone] at hstays
      cases hstays
    · rename_i hstays
      refine List.filter_congr fun h _ => ?_
      by_cases hwho : h.sub.toRecipient = who
      · simp [hwho, hstays]
      · simp [hwho]
  rw [whereabouts, hserving, hwaiting, hget]
  split
  · rfl
  · rfl

theorem whereabouts_removeSub (hqueries : w.queries.Wf) (x : Recipient) :
    (w.removeSub x).whereabouts who = if who = x then nowhere else w.whereabouts who := by
  have hcut : (w.removeSub x).whereabouts who
      = if decide (who = x) then nowhere else w.whereabouts who := by
    refine @whereabouts_cut w _ who (fun y => decide (y = x)) ?_ ?_ ?_
    · simp only [decide_eq_true_eq]
      exact hqueries.serving_remove
    · simp only [← decide_not]
      rfl
    · simp only [decide_eq_true_eq]
      exact Monitors.get?_remove
  simpa only [decide_eq_true_eq] using hcut

theorem Going.removeSub (h : Going v w n deeds) (x : Recipient) {latest : Nat} :
    Going v (w.removeSub x) n (deeds ++ [.handled (.removeSub x) latest false]) := by
  refine h.message rfl (h.queries.remove x) (h.monitors.remove x) (h.settled.remove h.monitors x) ?_ ?_
  · intro who hm
    have hne : who ≠ x := fun heq => of_decide_eq_false hm heq.symm
    rw [whereabouts_removeSub h.queries, if_neg hne]
  · intro who hm
    rw [whereabouts_removeSub h.queries, if_pos (of_decide_eq_true hm).symm]
    exact .nowhere .untaken

theorem whereabouts_closeConn (hqueries : w.queries.Wf) (conn : ConnId) :
    (w.closeConn conn).whereabouts who
      = if who.conn = conn then nowhere else w.whereabouts who := by
  have hcut : (w.closeConn conn).whereabouts who
      = if decide (who.conn = conn) then nowhere else w.whereabouts who := by
    refine @whereabouts_cut w _ who (fun y => decide (y.conn = conn)) ?_ ?_ ?_
    · simp only [decide_eq_true_eq]
      exact hqueries.serving_closeConn
    · simp only [← decide_not]
      rfl
    · simp only [decide_eq_true_eq]
      exact Monitors.get?_closeConn
  simpa only [decide_eq_true_eq] using hcut

theorem Going.closeConn (h : Going v w n deeds) (conn : ConnId) {latest : Nat} :
    Going v (w.closeConn conn) n (deeds ++ [.handled (.closeConn conn) latest false]) := by
  refine h.message rfl (h.queries.closeConn conn) (h.monitors.closeConn conn)
    (h.settled.closeConn h.monitors conn) ?_ ?_
  · intro who hm
    rw [whereabouts_closeConn h.queries, if_neg (of_decide_eq_false hm)]
  · intro who hm
    rw [whereabouts_closeConn h.queries, if_pos (of_decide_eq_true hm)]
    exact .nowhere .untaken

/-- A subscription that is taken on has a new replay; one that is refused leaves its name to nobody. -/
theorem Going.newSub (h : Going v w n deeds) (sub : Subscription) (live : Nat) :
    Going v { w.removeSub sub.toRecipient with
        queries := (w.queries.add sub v.latestSeq live).1 } n
      (deeds ++ [.handled (.newSub sub) v.latestSeq (w.queries.add sub v.latestSeq live).2.isNone]) := by
  rcases h.queries.add_cases sub v.latestSeq live with
    ⟨htaken, heq⟩ | ⟨htaken, hwf, cap, logScans, hserving⟩
  · rw [heq, htaken]
    refine h.message rfl (h.queries.remove _) (h.monitors.remove _) (h.settled.remove h.monitors _) ?_ ?_
    · intro who hconcerns
      have hne : who ≠ sub.toRecipient := fun heq => of_decide_eq_false hconcerns heq.symm
      exact (whereabouts_removeSub h.queries _).trans (if_neg hne)
    · intro who hconcerns
      have hplace : (w.removeSub sub.toRecipient).whereabouts who = nowhere :=
        (whereabouts_removeSub h.queries _).trans (if_pos (of_decide_eq_true hconcerns).symm)
      have hfits : Fits nowhere ⟨none, []⟩ := .nowhere .untaken
      rw [← hplace] at hfits
      exact hfits
  · -- but for the new replay, the recipients are where they are when the name is cleared
    have hplace : ∀ who, ({ w.removeSub sub.toRecipient with
        queries := (w.queries.add sub v.latestSeq live).1 } : Worker).whereabouts who
        = { (w.removeSub sub.toRecipient).whereabouts who with
            replay := (w.queries.add sub v.latestSeq live).1.serving who } := fun _ => rfl
    rw [htaken]
    refine h.message rfl hwf (h.monitors.remove _) (h.settled.remove h.monitors _) ?_ ?_
    · intro who hconcerns
      have hne : who ≠ sub.toRecipient := fun heq => of_decide_eq_false hconcerns heq.symm
      rw [hplace, whereabouts_removeSub h.queries, if_neg hne, hserving, if_neg hne]
      rfl
    · intro who hconcerns
      have hwho := (of_decide_eq_true hconcerns).symm
      rw [hplace, whereabouts_removeSub h.queries, if_pos hwho, hserving, if_pos hwho]
      exact .replayed Replay.sound_start fun _ hseq => absurd hseq List.not_mem_nil

/-! ### Dispatch -/

theorem wordsTo_shown {seq : Nat} {whos : List Recipient} (h : whos.Nodup) :
    (shown seq whos).flatMap (·.wordsTo who) = if who ∈ whos then [.live seq] else [] := by
  cases whos with
  | nil => rfl
  | cons x rest =>
    have hcount : (x :: rest).count who = if who ∈ x :: rest then 1 else 0 := h.count
    show List.replicate ((x :: rest).count who) (Word.live seq) ++ [] = _
    rw [hcount, List.append_nil]
    split
    · rfl
    · rfl

/-- The monitors are shown the next event. -/
theorem Going.shown (h : Going v w n deeds) {seq : Nat} {e : Event} (hlt : n < seq)
    (hle : seq ≤ v.latestSeq) :
    Going v { w with monitors := (w.monitors.dispatch seq e).1, position := some seq } seq
      (deeds ++ (Worker.shown seq (w.monitors.dispatch seq e).2).map .sent) := by
  have hd := h.monitors.dispatch h.settled hlt e
  refine h.sent rfl hle h.queries hd.wf hd.settled fun who => ?_
  have hplace : ({ w with monitors := (w.monitors.dispatch seq e).1, position := some seq } :
      Worker).whereabouts who
      = { w.whereabouts who with monitor := (w.monitors.dispatch seq e).1.get? who } := rfl
  rw [hplace, hd.get?_eq, wordsTo_shown hd.nodup]
  split
  · rename_i hgot
    obtain ⟨monitor, hmonitor, hbehind, -⟩ := hd.mem_iff.1 hgot
    have hfits := h.fits who
    have hwhere : (w.whereabouts who).monitor = some monitor := hmonitor
    generalize w.whereabouts who = place at hfits hwhere ⊢
    generalize taleOf who deeds = t at hfits ⊢
    -- who gets the event is followed, and all it has been told lies below its watermark
    cases hfits with
    | nowhere => cases hwhere
    | replayed => cases hwhere
    | waiting => cases hwhere
    | followed hcaught =>
      cases hwhere
      have hnext : ∀ x ∈ [seq], monitor.follower.watermark < x ∧ x ≤ seq := by
        intro x hx
        rw [List.mem_singleton.1 hx]
        exact ⟨hbehind, Nat.le_refl _⟩
      have hmoved : Caught _ (monitor.moved seq).follower.watermark _ :=
        hcaught.append (List.pairwise_singleton _ seq) (fun x hx => (hnext x hx).1)
          (fun x hx => (hnext x hx).2) (Nat.le_of_lt hbehind)
      rw [hmonitor]
      exact .followed hmoved
  · rw [Tale.tell_nil]
    exact h.fits who

/-- The monitors may be taken to be further on. -/
theorem Going.advance (h : Going v w n deeds) :
    Going v { w with position := some v.latestSeq } v.latestSeq deeds :=
  { h with
    position := rfl
    le_latest := Nat.le_refl _
    settled := h.settled.mono h.le_latest }

/-! ### Turns -/

theorem wordsTo_events {x : Recipient} {seqs : List Nat} :
    (seqs.map fun seq => Delivery.event x seq).flatMap (·.wordsTo who)
      = if who = x then seqs.map .event else [] := by
  rw [List.flatMap_map]
  split
  · rename_i hwho
    rw [List.map_eq_flatMap]
    apply List.flatMap_congr
    intro seq _
    exact if_pos hwho.symm
  · rename_i hwho
    refine List.flatMap_eq_nil_iff.2 fun seq _ => ?_
    exact if_neg fun heq => hwho heq.symm

/-- A replay that a worker serves is where its recipient is. -/
theorem Going.of_serving (h : Going v w n deeds) {r : Replay} (hwho : w.queries.serving who = some r) :
    w.whereabouts who = ⟨some r, [], none⟩ ∧ r.Sound
      ∧ (∀ seq ∈ r.delivered, seq ≤ r.follower.watermark)
      ∧ taleOf who deeds = ⟨some r.follower, r.delivered.map .event⟩ := by
  have hfits := h.fits who
  have hwhere : (w.whereabouts who).replay = some r := hwho
  generalize w.whereabouts who = place at hfits hwhere ⊢
  generalize taleOf who deeds = t at hfits ⊢
  cases hfits with
  | nowhere => cases hwhere
  | replayed hr hle =>
    cases hwhere
    exact ⟨rfl, hr, hle, rfl⟩
  | waiting => cases hwhere
  | followed => cases hwhere

/-- A slice delivers nothing above the watermark of its replay. -/
theorem le_of_mem_delivered {r : Replay} {slice : Replay.Slice} (hserved : Replay.Served v r slice)
    (hr : r.Sound) (hle : ∀ seq ∈ r.delivered, seq ≤ r.follower.watermark) :
    ∀ seq ∈ slice.replay.delivered, seq ≤ slice.replay.follower.watermark := by
  intro seq hseq
  rw [hserved.follower_eq]
  rw [hserved.delivered_append] at hseq
  rcases List.mem_append.1 hseq with hseq | hseq
  · exact hle seq hseq
  · exact hserved.le_watermark hr hseq

/-- Where recipients are after a turn, but for the one whose replay has had it. -/
theorem whereabouts_of_turned {r : Replay} {slice : Replay.Slice} {turn : Scheduler.Turn} {x : Recipient}
    (hturned : Scheduler.Turned w.queries v x r slice turn) (hne : who ≠ x) :
    ({ w with queries := turn.scheduler } : Worker).whereabouts who = w.whereabouts who := by
  rw [whereabouts, whereabouts, hturned.others who hne]

/-- A turn that nobody notices. -/
theorem Going.idle (h : Going v w n deeds) {queries : Scheduler} (hwf : queries.Wf)
    (hserving : ∀ x, queries.serving x = w.queries.serving x) : Going v { w with queries } n deeds := by
  refine { h with
    queries := hwf
    fits := fun who => ?_ }
  have hplace : ({ w with queries } : Worker).whereabouts who = w.whereabouts who :=
    congrArg (Whereabouts.mk · _ _) (hserving who)
  rw [hplace]
  exact h.fits who

/-- A turn of a replay that waits for another. -/
theorem Going.pause (h : Going v w n deeds) {r : Replay} {slice : Replay.Slice}
    {turn : Scheduler.Turn} {x : Recipient} (hwf : turn.scheduler.Wf)
    (hturned : Scheduler.Turned w.queries v x r slice turn)
    (hstays : turn.scheduler.serving x = some slice.replay) :
    Going v { w with queries := turn.scheduler } n
      (deeds ++ ((r.deliveredSince slice.replay).map fun seq => Delivery.event x seq).map .sent) := by
  obtain ⟨hplace, hr, hle, htale⟩ := h.of_serving hturned.serving
  refine h.sent h.position h.le_latest hwf h.monitors h.settled fun who => ?_
  rw [wordsTo_events]
  split
  · rename_i hwho
    subst hwho
    have hplace' : ({ w with queries := turn.scheduler } : Worker).whereabouts who
        = ⟨some slice.replay, [], none⟩ := by
      have hsame : ({ w with queries := turn.scheduler } : Worker).whereabouts who
          = { w.whereabouts who with replay := turn.scheduler.serving who } := rfl
      rw [hsame, hplace, hstays]
    rw [hplace', htale, Tale.tell, ← List.map_append, ← hturned.served.delivered_append,
      ← hturned.served.follower_eq]
    exact .replayed hturned.served.sound (le_of_mem_delivered hturned.served hr hle)
  · rename_i hne
    exact h.fits_of_quiet rfl (whereabouts_of_turned hturned hne)

/-- Where recipients are when somebody else comes into the handoff queue. -/
theorem whereabouts_concat (hne : who ≠ follower.sub.toRecipient) :
    ({ w with handoffs := w.handoffs ++ [follower] } : Worker).whereabouts who = w.whereabouts who := by
  have hskip : ¬ follower.sub.toRecipient = who := fun heq => hne heq.symm
  rw [whereabouts, whereabouts]
  simp [List.filter_append, hskip]

/-- A turn of a replay that becomes complete. -/
theorem Going.complete (h : Going v w n deeds) {r : Replay} {slice : Replay.Slice}
    {turn : Scheduler.Turn} {x : Recipient} (hwf : turn.scheduler.Wf)
    (hturned : Scheduler.Turned w.queries v x r slice turn)
    (hgone : turn.scheduler.serving x = none) :
    Going v { w with
        queries := turn.scheduler
        handoffs := w.handoffs ++ [slice.replay.follower] } n
      (deeds ++ ((r.deliveredSince slice.replay).map (fun seq => Delivery.event x seq)
        ++ [Delivery.eose slice.replay.follower.sub.toRecipient]).map .sent) := by
  obtain ⟨hplace, hr, hle, htale⟩ := h.of_serving hturned.serving
  have hrecipient : slice.replay.follower.sub.toRecipient = x := by
    rw [hturned.served.follower_eq]
    exact h.queries.recipient_of_serving hturned.serving
  refine h.sent h.position h.le_latest hwf h.monitors h.settled fun who => ?_
  rw [List.flatMap_append, wordsTo_events, List.flatMap_singleton, hrecipient]
  by_cases hwho : who = x
  · subst hwho
    have hplace' : ({ w with
        queries := turn.scheduler
        handoffs := w.handoffs ++ [slice.replay.follower] } : Worker).whereabouts who
        = ⟨none, [slice.replay.follower], none⟩ := by
      have hwaiting : (w.handoffs.filter fun h => h.sub.toRecipient = who) = [] :=
        congrArg Whereabouts.waiting hplace
      have hnone : w.monitors.get? who = none := congrArg Whereabouts.monitor hplace
      rw [whereabouts]
      simp only [hgone, hnone, List.filter_append, hwaiting, List.nil_append, hrecipient,
        List.filter_cons, decide_true, if_pos, List.filter_nil]
    have hwords : Delivery.wordsTo who (.eose who) = [Word.eose] := if_pos rfl
    have hnodup : slice.replay.delivered.Nodup := List.nodup_reverse.2 hturned.served.sound.tally.nodup_sent
    rw [hplace', htale, if_pos rfl, hwords, Tale.tell, ← List.append_assoc, ← List.map_append,
      ← hturned.served.delivered_append, ← hturned.served.follower_eq]
    exact .waiting ⟨⟨⟨slice.replay.delivered, true, []⟩, rfl, rfl,
      ⟨hnodup, le_of_mem_delivered hturned.served hr hle, .nil, fun _ h => absurd h List.not_mem_nil⟩,
      fun _ h => absurd h List.not_mem_nil⟩, Nat.le_refl _⟩
  · have hwords : Delivery.wordsTo who (.eose x) = [] := if_neg fun heq => hwho heq.symm
    refine h.fits_of_quiet ?_ ?_
    · rw [if_neg hwho, hwords]
      rfl
    · have hne : who ≠ slice.replay.follower.sub.toRecipient := by
        rw [hrecipient]
        exact hwho
      exact (whereabouts_concat hne).trans (whereabouts_of_turned hturned hwho)

/-! ### Handoffs -/

theorem wordsTo_passedOn {passed : List (Nat × Event)} :
    (passedOn follower passed).flatMap (·.wordsTo who) = if who = follower.sub.toRecipient then
      ((passed.filter fun x => follower.sub.filters.accepts x.2).map Prod.fst).map .live else [] := by
  rw [passedOn, List.flatMap_map]
  split
  · rename_i hwho
    rw [List.map_map, List.map_eq_flatMap, hwho]
    apply List.flatMap_congr
    intro x _
    show List.replicate ([follower.sub.toRecipient].count follower.sub.toRecipient) (Word.live x.1) = _
    rw [List.count_singleton_self]
    rfl
  · rename_i hwho
    refine List.flatMap_eq_nil_iff.2 fun x _ => ?_
    show List.replicate ([follower.sub.toRecipient].count who) (Word.live x.1) = []
    rw [List.count_singleton, if_neg]
    · rfl
    · exact fun heq => hwho (eq_of_beq heq).symm

section

variable {rest : List Follower}

/-- Where recipients are when somebody heads the handoff queue. -/
theorem whereabouts_cons : ({ w with handoffs := follower :: rest } : Worker).whereabouts who
    = if who = follower.sub.toRecipient then
        { ({ w with handoffs := rest } : Worker).whereabouts who with
          waiting := follower :: (({ w with handoffs := rest } : Worker).whereabouts who).waiting }
      else ({ w with handoffs := rest } : Worker).whereabouts who := by
  rw [whereabouts, whereabouts]
  split
  · rename_i hwho
    simp only [List.filter_cons, hwho, decide_true, if_pos]
  · rename_i hwho
    have hskip : ¬ follower.sub.toRecipient = who := fun heq => hwho heq.symm
    simp only [List.filter_cons, hskip, decide_false, Bool.false_eq_true, if_false]

/-- The head of the handoff queue is nowhere else. -/
theorem Going.of_head (h : Going v { w with handoffs := follower :: rest } n deeds) :
    ({ w with handoffs := rest } : Worker).whereabouts follower.sub.toRecipient = nowhere
      ∧ ∃ watermark words,
        taleOf follower.sub.toRecipient deeds = ⟨some ⟨follower.sub, watermark⟩, words⟩
          ∧ Caught watermark follower.watermark words := by
  have hfits := h.fits follower.sub.toRecipient
  rw [whereabouts_cons, if_pos rfl] at hfits
  generalize ({ w with handoffs := rest } : Worker).whereabouts follower.sub.toRecipient = place at hfits ⊢
  generalize taleOf follower.sub.toRecipient deeds = t at hfits ⊢
  obtain ⟨replay, waiting, monitor⟩ := place
  cases hfits with
  | waiting hcaught => exact ⟨rfl, _, _, rfl, hcaught⟩

/-- The head of the handoff queue is caught up. -/
theorem Going.catchUp (h : Going v { w with handoffs := follower :: rest } n deeds) (f : Faults) :
    Going v { w with handoffs := (Worker.catchUp v n f follower).1 :: rest } n
      (deeds ++ (Worker.catchUp v n f follower).2.1.map .sent) := by
  obtain ⟨passed, hc⟩ := caughtUp v n f follower
  generalize Worker.catchUp v n f follower = result at hc ⊢
  obtain ⟨hnowhere, watermark, words, htale, hcaught⟩ := h.of_head
  have hsame : result.1.sub = follower.sub := by rw [hc.follower_eq]
  refine h.sent h.position h.le_latest h.queries h.monitors h.settled fun who => ?_
  rw [hc.out_eq, wordsTo_passedOn, whereabouts_cons, hsame]
  split
  · rename_i hwho
    rw [hwho, hnowhere, htale, ← hsame]
    obtain ⟨more, hafter, -⟩ := hc.exists_more
    have hordered : passed.Pairwise fun x y => x.1 < y.1 := by
      have hall : (v.eventsAfter follower.watermark).Pairwise fun x y => x.1 < y.1 :=
        View.pairwise_eventsAfter
      rw [hafter] at hall
      exact (List.pairwise_append.1 hall).1
    have hpassed : ∀ x ∈ passed, follower.watermark < x.1 := by
      intro x hx
      have hmem : (x.1, x.2) ∈ v.eventsAfter follower.watermark := hafter ▸ List.mem_append_left _ hx
      exact (View.mem_eventsAfter.1 hmem).2
    refine .waiting (hcaught.append ?_ ?_ ?_ hc.le)
    · exact List.pairwise_map.2 (hordered.filter _)
    · intro seq hseq
      obtain ⟨x, hx, rfl⟩ := List.mem_map.1 hseq
      exact hpassed x (List.mem_filter.1 hx).1
    · intro seq hseq
      obtain ⟨x, hx, rfl⟩ := List.mem_map.1 hseq
      exact hc.le_watermark x (List.mem_filter.1 hx).1
  · rename_i hwho
    refine h.fits_of_quiet rfl ?_
    rw [whereabouts_cons, if_neg hwho]

/-- The head of the handoff queue goes live, unless its connection holds too many subscriptions. -/
theorem Going.goLive (h : Going v { w with handoffs := follower :: rest } n deeds) :
    Going v { w with monitors := (w.monitors.install follower).1, handoffs := rest } n deeds := by
  obtain ⟨hnowhere, watermark, words, htale, hcaught⟩ := h.of_head
  have hplace : ∀ who, ({ w with monitors := (w.monitors.install follower).1, handoffs := rest } :
      Worker).whereabouts who = { ({ w with handoffs := rest } : Worker).whereabouts who with
        monitor := (w.monitors.install follower).1.get? who } := fun _ => rfl
  refine { h with
    monitors := h.monitors.install follower
    settled := h.settled.install h.monitors follower
    fits := fun who => ?_ }
  rw [hplace]
  by_cases hwho : who = follower.sub.toRecipient
  · subst hwho
    rw [hnowhere]
    rcases Monitors.install_cases w.monitors follower with hrefused | ⟨hget, -⟩
    · rw [hrefused, Monitors.get?_remove, if_pos rfl]
      exact .nowhere (h.fits _).obeys
    · rw [hget, if_pos rfl, htale]
      exact .followed hcaught
  · have hfits := h.fits who
    rw [whereabouts_cons, if_neg hwho] at hfits
    rw [Monitors.get?_install_of_ne hwho]
    exact hfits
end

/-! ### Pieces of work -/

theorem going_upheld (hv : v.Mirrors) : Upheld v (Going v) where
  position h := h.position
  queries h := h.queries
  withPending h pending := h.withPending pending
  newSub h sub live _ := h.newSub sub live
  removeSub h who := h.removeSub who
  closeConn h conn := h.closeConn conn
  dbChange h := h.message rfl h.queries h.monitors h.settled (fun _ _ => rfl)
    fun _ hm => absurd hm Bool.false_ne_true
  notice h conn := h.notice conn
  shown h _ _ _ hafter := h.shown (View.event?_of_cons hafter).2
    (hv.bounded (View.event?_of_cons hafter).1)
  advance h _ := h.advance
  idle h _ hwf _ hserving := h.idle hwf hserving
  pause h _ _ _ _ hwf _ hturned hstays := h.pause hwf hturned hstays
  complete h _ _ _ _ hwf _ hturned _ hgone := h.complete hwf hturned hgone
  catchUp h f := h.catchUp f
  goLive h _ := h.goLive

end Worker

end EventRelay
