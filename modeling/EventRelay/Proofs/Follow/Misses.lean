import EventRelay.Proofs.Follow.Watch
/-!
# What a follower misses

A follower asks for the events first and looks at the latest seq afterwards, and the two do not wait for
each other.  An event that is stored after the worker has begun with the request and before the first look
is too new for the replay and is nothing new to the follower: it is delivered with the next event that is
stored, whatever that is, and if there is none, never.  No other event is missed, and none is delivered
twice.

Main statement: `mem_delivered_iff`.
-/

namespace EventRelay

open Worker (Kept)

/-- What a subscription that is followed has been sent, where no limit cuts its replay off: each event that
it accepts up to where it was taken on or up to the position of the monitors, once. -/
theorem Worker.Kept.mem_delivered {v : View} {n : Nat} {life : Life} {follower : Follower}
    (h : Kept Event.FromJson v n n life follower)
    (hg : ∀ f ∈ life.sub.filters.filters, f.FromJson ∧ f.primaryField.isFixed = true
      ∧ (f.matchesIn v v.latestSeq).length ≤ f.limit.toNat) :
    (life.replayed ++ life.live).Nodup ∧ ∀ seq, seq ∈ life.replayed ++ life.live ↔
      ∃ e, v.event? seq = some e ∧ life.sub.filters.accepts e = true
        ∧ (seq ≤ life.watermark ∨ seq ≤ n) := by
  have hexact : life.sub.filters.IsExact Event.FromJson :=
    ⟨fun _ he => he, fun f hf => ⟨(hg f hf).1, (hg f hf).2.1⟩⟩
  have hlimits : ∀ f ∈ life.sub.filters.filters,
      (f.matchesIn v life.watermark).length ≤ f.limit.toNat := fun f hf =>
    Nat.le_trans (Filter.length_matchesIn_le h.le_latest) (hg f hf).2.2
  have hreplayed : ∀ seq, seq ∈ life.replayed ↔ seq ≤ life.watermark
      ∧ ∃ e, v.event? seq = some e ∧ life.sub.filters.accepts e = true := by
    intro seq
    rw [h.replayed hexact]
    exact FilterGroup.mem_answer hlimits
  have hlive : ∀ seq, seq ∈ life.live ↔ life.watermark < seq ∧ seq ≤ n
      ∧ ∃ e, v.event? seq = some e ∧ life.sub.filters.accepts e = true := by
    intro seq
    rw [h.live]
    exact View.mem_between
  refine ⟨List.nodup_append.2 ⟨?_, ?_, fun a ha b hb => ?_⟩, fun seq => ?_⟩
  · rw [h.replayed hexact]
    exact FilterGroup.nodup_answer
  · rw [h.live]
    exact View.pairwise_between.imp Nat.ne_of_lt
  · have hle := ((hreplayed a).1 ha).1
    have hlt := ((hlive b).1 hb).1
    omega
  · rw [List.mem_append, hreplayed, hlive]
    constructor
    · rintro (⟨hle, e, he, haccepts⟩ | ⟨-, hle, e, he, haccepts⟩)
      · exact ⟨e, he, haccepts, .inl hle⟩
      · exact ⟨e, he, haccepts, .inr hle⟩
    · rintro ⟨e, he, haccepts, hle⟩
      by_cases hold : seq ≤ life.watermark
      · exact .inl ⟨hold, e, he, haccepts⟩
      · exact .inr ⟨Nat.not_le.1 hold, hle.resolve_left hold, e, he, haccepts⟩

namespace Follow

variable {c : Config} {group : FilterGroup} {s : Store} {x : Watch} {w : Worker} {inbox : List Message}

/-- Once it has looked, a follower has seen the latest seq until the next event is stored. -/
theorem Watching.seen_look (h : Watching c group x) :
    (x.step .look).follow.seen = some (x.step .look).store.view.latestSeq := by
  obtain ⟨w, inbox, -, -, -, hnoted⟩ := h.exists_asker
  rw [Watch.step, Follow.look]
  cases hseen : x.follow.seen with
  | none => rfl
  | some seen =>
    obtain ⟨-, -, -, hle⟩ := hnoted.first_of_seen hseen
    simp only
    split
    · rfl
    · rename_i hge
      exact hseen.trans (congrArg some (Nat.le_antisymm hle (Nat.not_lt.1 hge)))

/-- Looks and turns change neither the store nor that everything has been seen. -/
theorem Watching.seen_of_no_commit (h : Watching c group x)
    (hseen : x.follow.seen = some x.store.view.latestSeq) {moves : List Move}
    (hmoves : ∀ e text, .commit e text ∉ moves) :
    (moves.foldl Watch.step x).follow.seen
      = some (moves.foldl Watch.step x).store.view.latestSeq := by
  induction moves generalizing x with
  | nil => exact hseen
  | cons move rest ih =>
    have hrest : ∀ e text, .commit e text ∉ rest :=
      fun e text hmem => hmoves e text (List.mem_cons_of_mem _ hmem)
    cases move with
    | commit e text => exact absurd List.mem_cons_self (hmoves e text)
    | look => exact ih h.look h.seen_look hrest
    | turn clock i taken =>
      refine ih (h.turn clock i taken) ?_ hrest
      rw [Watch.step]
      rcases turn_cases x.follow x.store.view clock i taken with ⟨hturn, -⟩ | ⟨_, _, -, -, -, hturn⟩
      · rw [hturn]
        exact hseen
      · rw [hturn]
        exact hseen

/-- A follower that has looked since the last event was stored has seen the latest seq. -/
theorem seen_of_looked {before after : List Move} (hs : s.Built Event.FromJson)
    (hcommits : ∀ e text, .commit e text ∈ before ++ .look :: after → e.FromJson)
    (hafter : ∀ e text, .commit e text ∉ after) :
    (Watch.after c group s (before ++ .look :: after)).follow.seen
      = some (Watch.after c group s (before ++ .look :: after)).store.view.latestSeq := by
  have hbefore : Watching c group (Watch.after c group s before) :=
    watching_after hs fun e text hmem => hcommits e text (List.mem_append_left _ hmem)
  have hsplit : Watch.after c group s (before ++ .look :: after)
      = after.foldl Watch.step ((Watch.after c group s before).step .look) := by
    rw [Watch.after, List.foldl_append]
    rfl
  rw [hsplit]
  exact hbefore.look.seen_of_no_commit hbefore.seen_look hafter

/-- An idle follower has had the request handled, and has no news left to handle. -/
theorem Watching.of_isIdle (h : Watching c group x) (hidle : x.follow.isIdle = true) :
    ∃ w, w.isIdle = true ∧ Asker c group x.store w [] x.asked x.words
      ∧ Noted x.store.view.latestSeq x.first x.follow.seen x.asked w [] := by
  obtain ⟨w, inbox, hw, hinbox, hasker, hnoted⟩ := h.exists_asker
  obtain ⟨hpool, hinboxes⟩ := Bool.and_eq_true_iff.1 hidle
  have hworker := List.all_eq_true.1 hpool w (List.mem_of_getElem? hw)
  have hempty := List.isEmpty_iff.1 (List.all_eq_true.1 hinboxes inbox (List.mem_of_getElem? hinbox))
  subst hempty
  exact ⟨w, hworker, hasker, hnoted⟩

/-- The worker that is asked tells all its events up to where it was asked, and up to its position. -/
theorem Asker.delivered {asked n : Nat} {words : List Word} (h : Asker c group s w [] (some asked) words)
    (hidle : w.isIdle = true) (hposition : w.position = some n)
    (hg : ∀ f ∈ group.filters, f.FromJson ∧ f.primaryField.isFixed = true
      ∧ (f.matchesIn s.view s.view.latestSeq).length ≤ f.limit.toNat) :
    (words.filterMap Word.seq?).Nodup ∧ ∀ seq, seq ∈ words.filterMap Word.seq? ↔
      0 < c.maxSubsPerConnection.toNat ∧ ∃ e, s.view.event? seq = some e ∧ group.accepts e = true
        ∧ (seq ≤ asked ∨ seq ≤ n) := by
  obtain _ | @⟨_, deeds, hcourse, hrun, hquiet, -, -⟩ := h
  have hself : ∀ taken, (Deed.handled (.newSub ⟨recipient, group⟩) asked taken).concerns recipient = true :=
    fun _ => decide_eq_true (rfl : recipient = recipient)
  by_cases hroom : 0 < c.maxSubsPerConnection.toNat
  · rw [decide_eq_true hroom] at hcourse hrun
    -- whoever has been taken on is followed, and its life is what it has been told
    have htale : taleOf recipient (.handled (.newSub ⟨recipient, group⟩) asked true :: deeds)
        = ⟨some ⟨⟨recipient, group⟩, asked⟩, deeds.flatMap (·.wordsTo recipient)⟩ :=
      @taleOf_of_split recipient [] deeds _ (hself true) hquiet
    have htaken : (taleOf recipient (.handled (.newSub ⟨recipient, group⟩) asked true :: deeds)).taken
        ≠ none := by
      rw [htale]
      exact Option.some_ne_none _
    obtain ⟨monitor, hmonitor⟩ := hcourse.followed_of_idle hidle htaken
    obtain ⟨n', hsound⟩ := hrun.sound_of_followed hmonitor
    cases hposition.symm.trans hsound.position
    obtain ⟨life, hlife, hkept⟩ := hsound.followed hmonitor
    have hlife' := @lifeOf_of_quiet ⟨recipient, group⟩ asked true deeds hquiet
    cases hlife.symm.trans hlife'
    obtain ⟨hnodup, hmem⟩ := hkept.mem_delivered hg
    have hperm := Word.perm_filterMap_seq? (deeds.flatMap (·.wordsTo recipient))
    refine ⟨hperm.nodup_iff.2 hnodup, fun seq => ?_⟩
    rw [hperm.mem_iff, and_iff_right hroom]
    exact hmem seq
  · -- nobody is taken on, and nobody is told anything
    rw [decide_eq_false hroom] at hcourse
    have htale : taleOf recipient (.handled (.newSub ⟨recipient, group⟩) asked false :: deeds)
        = ⟨none, deeds.flatMap (·.wordsTo recipient)⟩ :=
      @taleOf_of_split recipient [] deeds _ (hself false) hquiet
    have hobeys : (taleOf recipient _).Obeys := hcourse.obeyed (List.prefix_refl _)
    rw [htale] at hobeys
    have hnothing : deeds.flatMap (·.wordsTo recipient) = [] := hobeys.of_untaken rfl
    rw [hnothing]
    exact ⟨.nil, fun seq => iff_of_false List.not_mem_nil fun hall => hroom hall.1⟩

/-- Where a follower has looked since the last event was stored and nothing is left to do, it has been sent
each event that the group accepts, once, unless it may not ask at all or the event is one of those that
were stored after the worker had begun with the request, while nothing has been stored since the first
look. -/
theorem mem_delivered_iff {moves before after : List Move} (hs : s.Built Event.FromJson)
    (hcommits : ∀ e text, .commit e text ∈ moves → e.FromJson) (hmoves : moves = before ++ .look :: after)
    (hafter : ∀ e text, .commit e text ∉ after)
    (hidle : (Watch.after c group s moves).follow.isIdle = true)
    (hg : ∀ f ∈ group.filters, f.FromJson ∧ f.primaryField.isFixed = true
      ∧ (f.matchesIn (Watch.after c group s moves).store.view
        (Watch.after c group s moves).store.view.latestSeq).length ≤ f.limit.toNat) :
    let x := Watch.after c group s moves
    ∃ asked first, x.asked = some asked ∧ x.first = some first ∧ x.delivered.Nodup
      ∧ ∀ seq, seq ∈ x.delivered ↔ 0 < c.maxSubsPerConnection.toNat
        ∧ ∃ e, x.store.view.event? seq = some e ∧ group.accepts e = true
          ∧ (seq ≤ asked ∨ first < x.store.view.latestSeq) := by
  intro x
  have hwatching : Watching c group x := watching_after hs hcommits
  have hseen : x.follow.seen = some x.store.view.latestSeq := by
    subst hmoves
    exact seen_of_looked hs hcommits hafter
  obtain ⟨w, hworker, hasker, hnoted⟩ := hwatching.of_isIdle hidle
  obtain ⟨first, hfirst, hle, -⟩ := hnoted.first_of_seen hseen
  rw [hfirst, hseen] at hnoted
  cases hasked : x.asked with
  | none =>
    rw [hasked] at hasker
    generalize x.words = words at hasker
    cases hasker with
    | fresh _ hinbox _ => cases hinbox
  | some asked =>
    rw [hasked] at hasker hnoted
    refine ⟨asked, first, rfl, hfirst, ?_⟩
    by_cases hnew : first < x.store.view.latestSeq
    · -- news has been handled, so the worker is at the end of the store
      obtain ⟨n, hposition, hlatest⟩ := (hnoted.notified rfl rfl hnew).resolve_left List.not_mem_nil
      have hn : n = x.store.view.latestSeq := Nat.le_antisymm (hasker.le_latest hposition) hlatest
      obtain ⟨hnodup, hmem⟩ := hasker.delivered hworker hposition hg
      refine ⟨hnodup, fun seq => (hmem seq).trans (and_congr_right fun _ => exists_congr fun e => ?_)⟩
      refine and_congr_right fun he => and_congr_right fun _ => ?_
      have hbounded : seq ≤ n := hn ▸ hwatching.built.view.mirrors.bounded he
      simp only [hbounded, hnew, or_true]
    · -- nothing new has been seen, so the worker is where it was asked
      have hall : first = x.store.view.latestSeq := Nat.le_antisymm hle (Nat.not_lt.1 hnew)
      have hposition := (hnoted.unnotified (congrArg some hall)).2 asked rfl
      obtain ⟨hnodup, hmem⟩ := hasker.delivered hworker hposition hg
      refine ⟨hnodup, fun seq => (hmem seq).trans ?_⟩
      simp only [or_self, hnew, or_false]

/-! ### The first look comes too late -/

/-- Two notes. -/
def firstNote : Event := Replay.tagged 0x22 10 [0x61]

def secondNote : Event := Replay.tagged 0x33 20 [0x61, 0x62]

/-- The worker has handled the request when the first note is stored; only then comes the first look. -/
def lateLook : List Move := [.turn .unlimited 0 1, .commit firstNote "", .look, .look]

/-- The second note is stored, and everybody gets news. -/
def laterNews : List Move :=
  lateLook ++ [.commit secondNote "", .look, .turn .exhausted 0 1, .turn .unlimited 1 1,
    .turn .unlimited 2 1]

theorem fromJson_notes : firstNote.FromJson ∧ secondNote.FromJson :=
  ⟨⟨firstNote.toJson, rfl⟩, ⟨secondNote.toJson, rfl⟩⟩

/-- A follower of notes. -/
def notes : FilterGroup := Worker.noteSub.filters

theorem fromJson_of_mem_notes {f : Filter} (hf : f ∈ notes.filters) :
    f.FromJson ∧ f.primaryField.isFixed = true := by
  cases List.mem_singleton.1 hf
  exact ⟨⟨Filter.unbounded, .object [("kinds", .array [.number (.integer false 1)])], rfl⟩, rfl⟩

theorem fromJson_of_mem_lateLook {moves : List Move} (hmoves : moves = lateLook ∨ moves = laterNews)
    {e : Event} {text : String} (hmem : .commit e text ∈ moves) : e.FromJson := by
  rcases hmoves with rfl | rfl
  · simp only [lateLook, List.mem_cons, List.not_mem_nil, or_false, reduceCtorEq, false_or,
      Move.commit.injEq] at hmem
    rw [hmem.1]
    exact fromJson_notes.1
  · simp only [laterNews, lateLook, List.mem_append, List.mem_cons, List.not_mem_nil, or_false,
      reduceCtorEq, false_or, Move.commit.injEq] at hmem
    rcases hmem with ⟨rfl, -⟩ | ⟨rfl, -⟩
    · exact fromJson_notes.1
    · exact fromJson_notes.2

/-- With the second note, the first is delivered, too. -/
theorem mem_delivered_laterNews :
    1 ∈ (Watch.after .default notes (.rows .empty) laterNews).delivered
      ∧ 2 ∈ (Watch.after .default notes (.rows .empty) laterNews).delivered := by
  have hidle : (Watch.after .default notes (.rows .empty) laterNews).follow.isIdle = true := by
    decide +kernel
  have hlatest : (Watch.after .default notes (.rows .empty) laterNews).store.view.latestSeq = 2 := by
    decide +kernel
  have hmoves : laterNews
      = (lateLook ++ [.commit secondNote ""]) ++ .look ::
        [.turn .exhausted 0 1, .turn .unlimited 1 1, .turn .unlimited 2 1] := rfl
  obtain ⟨asked, first, -, hfirst, -, hmem⟩ := mem_delivered_iff .rows
    (fun _ _ => fromJson_of_mem_lateLook (.inr rfl)) hmoves (by simp) hidle (by
      intro f hf
      refine ⟨(fromJson_of_mem_notes hf).1, (fromJson_of_mem_notes hf).2, ?_⟩
      cases List.mem_singleton.1 hf
      rw [Filter.length_matchesIn]
      decide +kernel)
  have hone : (Watch.after .default notes (.rows .empty) laterNews).first = some 1 := by decide +kernel
  cases hfirst.symm.trans hone
  rw [hlatest] at hmem
  refine ⟨(hmem 1).2 ⟨by decide, firstNote, ?_, by decide +kernel, .inr (by decide)⟩,
    (hmem 2).2 ⟨by decide, secondNote, ?_, by decide +kernel, .inr (by decide)⟩⟩
  · decide +kernel
  · decide +kernel

/-- Without it, the first note is a match that is never delivered, however often the follower looks. -/
theorem not_forall_delivered :
    ¬ ∀ (c : Config) (group : FilterGroup) (s : Store) (moves before after : List Move),
      s.Built Event.FromJson → (∀ e text, .commit e text ∈ moves → e.FromJson) →
      moves = before ++ .look :: after → .look ∈ before → (∀ e text, .commit e text ∉ after) →
      (Watch.after c group s moves).follow.isIdle = true → 0 < c.maxSubsPerConnection.toNat →
      (∀ f ∈ group.filters, f.FromJson ∧ f.primaryField.isFixed = true
        ∧ (f.matchesIn (Watch.after c group s moves).store.view
          (Watch.after c group s moves).store.view.latestSeq).length ≤ f.limit.toNat) →
      ∀ seq e, (Watch.after c group s moves).store.view.event? seq = some e → group.accepts e = true →
        seq ∈ (Watch.after c group s moves).delivered := by
  intro h
  have hmoves : lateLook = [.turn .unlimited 0 1, .commit firstNote "", .look] ++ .look :: [] := rfl
  have hdelivered := h .default notes (.rows .empty) lateLook _ [] .rows
    (fun _ _ => fromJson_of_mem_lateLook (.inl rfl)) hmoves (by simp) (by simp) (by decide +kernel)
    (by decide) (by
      intro f hf
      refine ⟨(fromJson_of_mem_notes hf).1, (fromJson_of_mem_notes hf).2, ?_⟩
      cases List.mem_singleton.1 hf
      rw [Filter.length_matchesIn]
      decide +kernel) 1 firstNote (by decide +kernel) (by decide +kernel)
  have hnothing : 1 ∉ (Watch.after .default notes (.rows .empty) lateLook).delivered := by decide +kernel
  exact hnothing hdelivered

end Follow

end EventRelay
