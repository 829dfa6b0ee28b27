import EventRelay.Proofs.Worker.Progress
import EventRelay.Proofs.Worker.Steps
/-!
# Runs of a worker

A run interleaves insertions with steps that get any messages, whose turns pause whenever their clocks say
so and whose reads fail in any way.  Along every run the worker stays sound, so where a subscription is
followed, its life says what it has been sent: live, just the events it accepts between the last seq
stored when it was taken on and the position of the monitors; and by replay, if its replays are exact,
those up to that seq.

Main statements: `Run.live_of_followed` (live delivery is exact) and `Run.delivered_of_followed` (every
event is delivered once).
-/

namespace EventRelay

namespace Worker

variable {admits : Event → Prop} {v : View} {w : Worker} {n : Nat} {items : List Item}

/-! ### Steps -/

/-- Every piece of work keeps a worker sound. -/
theorem sound_upheld (hv : v.Built admits) (items : List Item) :
    Upheld v fun w n deeds => Sound admits v w n (items ++ deeds.map Deed.item) where
  position h := h.position
  queries h := h.queries
  withPending h pending := h.withPending pending
  newSub {w n deeds} h sub live _ := by
    rw [List.map_append, ← List.append_assoc]
    exact h.newSub hv sub live
  removeSub {w n deeds} h who := by
    rw [List.map_append, ← List.append_assoc]
    exact h.removeSub who fun _ _ => lifeOf_handled nofun
  closeConn {w n deeds} h conn := by
    rw [List.map_append, ← List.append_assoc]
    exact h.closeConn conn fun _ => lifeOf_handled nofun
  dbChange {w n deeds} h := by
    rw [List.map_append, ← List.append_assoc]
    exact h.of_lifeOf fun _ => lifeOf_handled nofun
  notice {w n deeds} h conn := by
    rw [List.map_append, ← List.append_assoc]
    exact h.of_lifeOf fun _ => lifeOf_notice
  shown {w n deeds} h _ _ _ hafter := by
    rw [List.map_append, List.map_map, ← List.append_assoc]
    exact h.shown hv.mirrors hafter
  advance h hnone := h.advance hnone
  idle h _ hwf _ hserving := h.idle hwf hserving
  pause {w n deeds} h _ _ _ _ hwf _ hturned hstays := by
    rw [List.map_append, List.map_map, ← List.append_assoc]
    exact h.pause hwf hturned hstays
  complete {w n deeds} h _ _ _ _ hwf _ hturned hend hgone := by
    rw [List.map_append, List.map_map, ← List.append_assoc]
    exact h.complete hwf hturned hend hgone
  catchUp {w follower rest n deeds} h f := by
    rw [List.map_append, List.map_map, ← List.append_assoc]
    exact h.catchUp f
  goLive h hle := h.goLive hle

/-- A worker that has done nothing yet or is sound. -/
def Stands (admits : Event → Prop) (c : Config) (v : View) (w : Worker) (items : List Item) : Prop :=
  (∃ pending, w = { start c with pending } ∧ items = []) ∨ ∃ n, Sound admits v w n items

theorem Stands.withPending {c : Config} (h : Stands admits c v w items) (pending : List Message) :
    Stands admits c v { w with pending } items := by
  rcases h with ⟨_, rfl, hitems⟩ | ⟨n, hsound⟩
  · exact .inl ⟨pending, rfl, hitems⟩
  · exact .inr ⟨n, hsound.withPending pending⟩

theorem Stands.begin {c : Config} (h : Stands admits c v w items) (f : Faults) :
    ∃ n, Sound admits v (w.begin v f).worker n items := by
  rcases h with ⟨pending, rfl, rfl⟩ | ⟨n, hsound⟩
  · exact ⟨v.latestSeq, sound_start (Nat.le_refl _)⟩
  · refine ⟨n, ?_⟩
    rw [begin_of_position hsound.position hsound.le_latest]
    exact hsound.withPending []

theorem Stands.step {c : Config} (h : Stands admits c v w items) (hv : v.Built admits) (clock : Clock)
    (f : Faults) (messages : List Message) : Stands admits c v (w.step v clock f messages).worker
      (items ++ w.transcript v clock f messages) := by
  have hpending := h.withPending (w.pending ++ messages)
  have hbegin : ∀ f, ∃ n, Sound admits v ({ w with pending := w.pending ++ messages }.begin v f).worker n
      (items ++ ([] : List Deed).map Deed.item) := by
    intro f
    rw [List.map_nil, List.append_nil]
    exact hpending.begin f
  rw [← map_item_record]
  rcases (sound_upheld hv items).step clock f messages hbegin with ⟨hworker, hrecord⟩ | hsound
  · rw [hworker, hrecord, List.map_nil, List.append_nil]
    exact hpending
  · exact .inr hsound

theorem Stands.insert {c : Config} (h : Stands admits c v w items) (hv : v.Built admits) {e : Event}
    (he : admits e) : Stands admits c (v.insert e) w items := by
  rcases h with hfresh | ⟨n, hsound⟩
  · exact .inl hfresh
  · exact .inr ⟨n, hsound.insert hv he⟩

/-! ### Runs -/

/-- The runs of a worker over a store that admitted events are inserted into, with their transcripts. -/
inductive Run (c : Config) (admits : Event → Prop) : Store → Worker → List Item → Prop
  | start {s} : s.Built admits → Run c admits s (.start c) []
  | insert {s s' w items e text seq} : Run c admits s w items → admits e →
      s.insertWithText e text = .ok (seq, s') → Run c admits s' w items
  | step {s w items} (clock : Clock) (f : Faults) (messages : List Message) : Run c admits s w items →
      Run c admits s (w.step s.view clock f messages).worker
        (items ++ w.transcript s.view clock f messages)

variable {c : Config} {s : Store}

theorem Run.built (h : Run c admits s w items) : s.Built admits := by
  induction h with
  | start hs => exact hs
  | insert _ he hins ih => exact ih.insert he hins
  | step _ _ _ _ ih => exact ih

theorem Run.stands (h : Run c admits s w items) : Stands admits c s.view w items := by
  induction h with
  | start _ => exact .inl ⟨[], rfl, rfl⟩
  | insert hrun he hins ih =>
    -- a row that is known already is not stored again
    rcases Store.view_insertWithText hins with hview | hview
    · rw [hview]
      exact ih
    · rw [hview]
      exact ih.insert hrun.built.view he
  | step clock f messages hrun ih => exact ih.step hrun.built.view clock f messages

/-- Where a worker follows somebody, it is sound. -/
theorem Run.sound_of_followed (h : Run c admits s w items) {who : Recipient} {monitor : Monitor}
    (hwho : w.monitors.get? who = some monitor) : ∃ n, Sound admits s.view w n items := by
  rcases h.stands with ⟨_, rfl, -⟩ | hsound
  · cases hwho
  · exact hsound

/-! ### A run with a failure -/

/-- Somebody asks for notes. -/
def noteSub : Subscription :=
  ⟨Replay.asker, ⟨[{ Filter.unrestricted with kinds := some (.ofList [1]), indexOnly := true }]⟩⟩

/-- The store when only the first of the two notes is in it. -/
def oneNote : Store := .memory (MemoryStore.empty.insert (Replay.tagged 0x22 10 [0x61]))

/-- The worker has replayed the first note. -/
def replayed : Worker := ((start .default).step oneNote.view .unlimited .none [.newSub noteSub]).worker

/-- The walk over the new notes fails once it has passed the second. -/
def walkFault : Faults := Faults.none.arm .eventsAfter 0 ⟨1, ⟨"disk I/O error"⟩⟩

/-- The worker has passed on the second note and has yet to repeat the walk. -/
def interrupted : Worker := (replayed.step Replay.twoNotes.view .exhausted walkFault [.dbChange]).worker

/-- What has happened until then. -/
def interruptedItems : List Item :=
  (start .default).transcript oneNote.view .unlimited .none [.newSub noteSub]
    ++ replayed.transcript Replay.twoNotes.view .exhausted walkFault [.dbChange]

theorem run_interrupted :
    Run .default Event.FromJson Replay.twoNotes interrupted interruptedItems := by
  have hfirst : (Replay.tagged 0x22 10 [0x61]).FromJson :=
    ⟨(Replay.tagged 0x22 10 [0x61]).toJson, rfl⟩
  have hsecond : (Replay.tagged 0x33 20 [0x61, 0x62]).FromJson :=
    ⟨(Replay.tagged 0x33 20 [0x61, 0x62]).toJson, rfl⟩
  have hstart : Run .default Event.FromJson oneNote (start .default) [] :=
    .start (Store.Built.memory.memory_insert hfirst)
  have hreplayed : Run .default Event.FromJson oneNote replayed _ :=
    hstart.step .unlimited .none [.newSub noteSub]
  have hstored : Run .default Event.FromJson Replay.twoNotes replayed _ :=
    hreplayed.insert hsecond (rfl : oneNote.insertWithText _ "" = _)
  exact hstored.step .exhausted walkFault [.dbChange]

theorem get?_interrupted :
    interrupted.monitors.get? noteSub.toRecipient = some ⟨⟨noteSub, 2⟩, [0]⟩ := by decide +kernel

/-! ### What has been delivered -/

/-- Live delivery is exact: a subscription that is followed has been sent live, once and in ascending
order, the events it accepts above the last seq stored when it was taken on, up to the position of the
monitors. -/
theorem Run.live_of_followed (h : Run c admits s w items) {who : Recipient} {monitor : Monitor}
    (hwho : w.monitors.get? who = some monitor) :
    ∃ life n, lifeOf who items = some life ∧ life.sub = monitor.follower.sub ∧ w.position = some n
      ∧ life.live.Pairwise (· < ·)
      ∧ ∀ seq, seq ∈ life.live ↔ life.watermark < seq ∧ seq ≤ n
        ∧ ∃ e, s.view.event? seq = some e ∧ life.sub.filters.accepts e = true := by
  obtain ⟨n, hsound⟩ := h.sound_of_followed hwho
  obtain ⟨life, hlife, hkept⟩ := hsound.followed hwho
  refine ⟨life, n, hlife, hkept.sub_eq.symm, hsound.position, ?_, fun seq => ?_⟩
  · rw [hkept.live]
    exact View.pairwise_between
  · rw [hkept.live]
    exact View.mem_between

theorem live_of_interrupted : ∃ life, lifeOf noteSub.toRecipient interruptedItems = some life
    ∧ 2 ∈ life.live ∧ 1 ∉ life.live := by
  obtain ⟨life, n, hlife, hsub, hposition, -, hlive⟩ := run_interrupted.live_of_followed get?_interrupted
  have hn : interrupted.position = some 2 := by decide +kernel
  have hstart : lifeOf noteSub.toRecipient interruptedItems = some ⟨noteSub, 1, [1], [2]⟩ := by
    decide +kernel
  cases hposition.symm.trans hn
  cases hlife.symm.trans hstart
  refine ⟨_, hlife, (hlive 2).2 ⟨by decide, by decide, _, rfl, by decide +kernel⟩, fun hmem => ?_⟩
  exact Nat.lt_irrefl 1 ((hlive 1).1 hmem).1

/-- Every event is delivered once: where the monitors are at the end of the store, a subscription that
is followed has been sent each event it accepts once, by replay or live, provided that no limit cuts
its replay off and it scans no tag but `e` and `p`. -/
theorem Run.delivered_of_followed (h : Run c Event.FromJson s w items)
    (hposition : w.position = some s.view.latestSeq) {who : Recipient} {monitor : Monitor}
    (hwho : w.monitors.get? who = some monitor)
    (hg : ∀ f ∈ monitor.follower.sub.filters.filters, f.FromJson ∧ f.primaryField.isFixed = true
      ∧ (f.matchesIn s.view s.view.latestSeq).length ≤ f.limit.toNat) :
    ∃ life, lifeOf who items = some life ∧ life.sub = monitor.follower.sub
      ∧ (life.replayed ++ life.live).Nodup
      ∧ ∀ seq, seq ∈ life.replayed ++ life.live ↔
        ∃ e, s.view.event? seq = some e ∧ monitor.follower.sub.filters.accepts e = true := by
  obtain ⟨n, hsound⟩ := h.sound_of_followed hwho
  cases hsound.position.symm.trans hposition
  obtain ⟨life, hlife, hkept⟩ := hsound.followed hwho
  have hexact : life.sub.filters.IsExact Event.FromJson := by
    refine ⟨fun _ he => he, fun f hf => ?_⟩
    rw [← hkept.sub_eq] at hf
    exact ⟨(hg f hf).1, (hg f hf).2.1⟩
  have hlimits : ∀ f ∈ life.sub.filters.filters,
      (f.matchesIn s.view life.watermark).length ≤ f.limit.toNat := by
    intro f hf
    rw [← hkept.sub_eq] at hf
    exact Nat.le_trans (Filter.length_matchesIn_le hkept.le_latest) (hg f hf).2.2
  -- the watermark splits the events: those up to it came by replay, those above it live
  have hreplayed : ∀ seq, seq ∈ life.replayed ↔ seq ≤ life.watermark
      ∧ ∃ e, s.view.event? seq = some e ∧ life.sub.filters.accepts e = true := by
    intro seq
    rw [hkept.replayed hexact]
    exact FilterGroup.mem_answer hlimits
  have hlive : ∀ seq, seq ∈ life.live ↔ life.watermark < seq ∧ seq ≤ s.view.latestSeq
      ∧ ∃ e, s.view.event? seq = some e ∧ life.sub.filters.accepts e = true := by
    intro seq
    rw [hkept.live]
    exact View.mem_between
  refine ⟨life, hlife, hkept.sub_eq.symm, ?_, fun seq => ?_⟩
  · refine List.nodup_append.2 ⟨?_, ?_, ?_⟩
    · rw [hkept.replayed hexact]
      exact FilterGroup.nodup_answer
    · rw [hkept.live]
      exact View.pairwise_between.imp Nat.ne_of_lt
    · intro a ha b hb
      have hle := ((hreplayed a).1 ha).1
      have hlt := ((hlive b).1 hb).1
      omega
  · rw [List.mem_append, hreplayed, hlive, hkept.sub_eq]
    constructor
    · rintro (⟨-, he⟩ | ⟨-, -, he⟩)
      · exact he
      · exact he
    · rintro ⟨e, he, haccepts⟩
      have hle : seq ≤ s.view.latestSeq := h.built.view.mirrors.bounded he
      rcases Nat.lt_or_ge life.watermark seq with hlt | hge
      · exact .inr ⟨hlt, hle, e, he, haccepts⟩
      · exact .inl ⟨hge, e, he, haccepts⟩

theorem delivered_of_interrupted : ∃ life, lifeOf noteSub.toRecipient interruptedItems = some life
    ∧ (life.replayed ++ life.live).Nodup ∧ 1 ∈ life.replayed ++ life.live
    ∧ 2 ∈ life.replayed ++ life.live := by
  have hposition : interrupted.position = some Replay.twoNotes.view.latestSeq := by decide +kernel
  obtain ⟨life, hlife, -, hnodup, hmem⟩ :=
    run_interrupted.delivered_of_followed hposition get?_interrupted (by
      intro f hf
      cases List.mem_singleton.1 hf
      refine ⟨⟨Filter.unbounded, .object [("kinds", .array [.number (.integer false 1)])], rfl⟩, rfl, ?_⟩
      rw [Filter.length_matchesIn]
      decide +kernel)
  exact ⟨life, hlife, hnodup, (hmem 1).2 ⟨_, rfl, by decide +kernel⟩,
    (hmem 2).2 ⟨_, rfl, by decide +kernel⟩⟩

end Worker

end EventRelay
