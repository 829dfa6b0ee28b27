import EventRelay.Proofs.Replay.Account
import EventRelay.Proofs.Replay.Growth
import EventRelay.Proofs.Store.Change
/-!
# Replays of a changing store

While a replay waits between slices, events may be stored and deleted.  Where events are only stored, it
delivers what it would have delivered without a pause.  Where events are deleted, too, it may lose what it
had still to look at, but nothing else: an event that stays is promised to the replay, by a filter still to
come or by the scan of the current one, until it is delivered or the limit of its filter is reached.

Main statements: `Promised.process` (what a slice does to a promise), `delivered_of_complete` (a promise is
kept) and `stable_visited` (what slices come to between which the store changes).
-/

namespace EventRelay

/-- Whether a filter has matched as many seqs as it may, by the reports. -/
def LimitReached (log : List LogLine) (i : Nat) (f : Filter) : Prop :=
  f.limit = 0 ∨ ∃ found ∈ foundIn log i, f.limit.toNat ≤ found

theorem limitReached_append {a b : List LogLine} {i : Nat} {f : Filter}
    (h : LimitReached a i f ∨ LimitReached b i f) : LimitReached (a ++ b) i f := by
  rcases h with (hzero | ⟨found, hfound, hle⟩) | hzero | ⟨found, hfound, hle⟩
  · exact .inl hzero
  · exact .inr ⟨found, mem_foundIn_append.2 (.inl hfound), hle⟩
  · exact .inl hzero
  · exact .inr ⟨found, mem_foundIn_append.2 (.inr hfound), hle⟩

/-- Whether a view is of a store of events with good tags, one of which is this one. -/
structure View.Keeps (v : View) (seq : Nat) (e : Event) : Prop where
  mirrors : v.Mirrors
  hasIdTags : v.HasIdTags
  event?_eq : v.event? seq = some e

namespace Scan

/-- A scan that has not begun awaits every event that its filter accepts. -/
theorem mem_awaited_ofFilter {f : Filter} (hf : f.FromJson) (hfixed : f.primaryField.isFixed = true)
    {cap : UInt64} {v : View} {seq w : Nat} {e : Event} (hv : v.Keeps seq e)
    (haccepts : f.accepts e = true) (hseq : seq ≤ w) : seq ∈ (ofFilter f cap).awaited v w := by
  rw [← List.mem_eraseDups, eraseDups_awaited_ofFilter hf.wellRead hfixed hv.mirrors hv.hasIdTags]
  exact Filter.mem_matchesIn.2 ⟨hseq, e, hv.event?_eq, haccepts⟩

end Scan

namespace Replay

/-! ### Promises -/

/-- Whether filter number `i` of a replay has delivered a seq or will do so in a view, if its limit lets
it. -/
inductive Promised (r : Replay) (v : View) (i : Nat) (f : Filter) (seq : Nat) : Prop
  | delivered : seq ∈ r.delivered → Promised r v i f seq
  | ahead : r.filterIndex < i → Promised r v i f seq
  | awaited : r.filterIndex = i → seq ∈ (r.current f).awaited v r.follower.watermark →
      Promised r v i f seq

section

variable {r : Replay} {v v' : View} {i seq : Nat} {f : Filter} {e : Event}

/-- A run of the current scan keeps a promise. -/
theorem Promised.afterRun (h : Promised r v i f seq) (hr : r.Sound) {g : Filter}
    (hf : r.filters[i]? = some f) (hget : r.filters[r.filterIndex]? = some g) {run : Scan.Run Tally}
    (hran : Ran v r.follower.watermark g.limit.toNat (r.current g) r.tally run) :
    Promised (r.afterRun run) v i f seq := by
  cases h with
  | delivered hseq => exact .delivered ((delivered_afterRun hr hran).subset hseq)
  | ahead hi => exact .ahead hi
  | awaited hi hseq =>
    subst hi
    cases hget.symm.trans hf
    obtain ⟨seqs, hawaited, hnotes⟩ := hran.passed
    rw [hawaited] at hseq
    rcases List.mem_append.1 hseq with hseq | hseq
    · refine .delivered ?_
      show seq ∈ run.state.sent.reverse
      rw [hnotes.sent, List.mem_eraseDups]
      exact List.mem_append_right _ hseq
    · exact .awaited rfl hseq

/-- A filter that has delivered what it promised can be left. -/
theorem Promised.finishFilter (h : Promised r v i f seq)
    (hfresh : seq ∈ (Scan.ofFilter f r.authorKindCap).awaited v r.follower.watermark)
    (hdone : r.filterIndex = i → seq ∈ r.delivered) : Promised r.finishFilter v i f seq := by
  cases h with
  | delivered hseq => exact .delivered hseq
  | awaited hi _ => exact .delivered (hdone hi)
  | ahead hi =>
    rcases Nat.lt_or_eq_of_le (Nat.succ_le_of_lt hi) with hlt | heq
    · exact .ahead hlt
    -- the filter is the next one, and its scan has not begun
    · exact .awaited heq hfresh

/-- A slice keeps a promise, unless the limit of the filter is reached. -/
theorem Promised.process (h : Promised r v i f seq) (hr : r.Sound) (hf : r.filters[i]? = some f)
    (hlimit : f.limit ≠ 0)
    (hfresh : seq ∈ (Scan.ofFilter f r.authorKindCap).awaited v r.follower.watermark)
    {clock : Clock} {faults : Faults} {log : List LogLine} :
    Promised (r.process v clock faults log).replay v i f seq
      ∨ LimitReached (r.process v clock faults log).log i f := by
  fun_induction Replay.process r v clock faults log with
  | case1 r faults log hget => exact .inl h
  | case2 r faults log filter hget hzero ih =>
    refine ih (h.finishFilter hfresh fun hi => ?_) (sound_finishFilter hr.tally) hf hfresh
    -- the filter promises something, so its limit is not 0
    subst hi
    cases hget.symm.trans hf
    exact absurd hzero hlimit
  | case3 r faults log filter hget hpos scan run log' e hend =>
    have hran : Ran v r.follower.watermark filter.limit.toNat (r.current filter) r.tally run :=
      hr.ran_current hget hpos
    exact .inl (h.afterRun hr hf hget hran)
  | case4 r faults log filter hget hpos scan run log' hend =>
    have hran : Ran v r.follower.watermark filter.limit.toNat (r.current filter) r.tally run :=
      hr.ran_current hget hpos
    cases h.afterRun hr hf hget hran with
    | delivered hseq => exact .inl (.delivered hseq)
    | ahead hi => exact .inl (.ahead hi)
    | awaited hi hseq => exact .inl (.awaited hi hseq)
  | case5 r faults log filter hget hpos scan run log' hend ih =>
    have hran : Ran v r.follower.watermark filter.limit.toNat (r.current filter) r.tally run :=
      hr.ran_current hget hpos
    obtain ⟨seqs, -, hnotes⟩ := hran.passed
    by_cases hreached : r.filterIndex = i ∧ run.state.found.length = filter.limit.toNat
    · obtain ⟨rfl, hfound⟩ := hreached
      cases hget.symm.trans hf
      -- the report of the scan stays in the log
      refine .inr (.inr ⟨run.state.found.length, ?_, Nat.le_of_eq hfound.symm⟩)
      obtain ⟨more, hmore⟩ := @log_prefix_process (r.afterRun run).finishFilter v clock run.faults
        (log' ++ [(r.afterRun run).scanReport run.scan])
      have hreport : run.state.found.length
          ∈ foundIn (log' ++ [(r.afterRun run).scanReport run.scan] ++ more) r.filterIndex :=
        mem_foundIn_append.2 (.inl (mem_foundIn_append.2 (.inr (mem_foundIn_scanReport.2 ⟨rfl, rfl⟩))))
      rw [hmore] at hreport
      exact hreport
    · have hafter := h.afterRun hr hf hget hran
      refine ih (hafter.finishFilter hfresh fun hi => ?_) (sound_finishFilter (hnotes.sound hr.tally)) hf
        hfresh
      cases hafter with
      | delivered hseq => exact hseq
      | ahead hlt => exact absurd hi (Nat.ne_of_lt hlt)
      | awaited _ hseq =>
        -- the scan is complete below its limit, so nothing is awaited of it
        have hi : r.filterIndex = i := hi
        subst hi
        cases hget.symm.trans hf
        have hnone := (hran.complete hend).resolve_right fun hfound => hreached ⟨rfl, hfound⟩
        have hseq : seq ∈ run.scan.awaited v r.follower.watermark := hseq
        rw [hnone] at hseq
        exact absurd hseq List.not_mem_nil

/-- Before the first slice a filter is still to come, or is the first. -/
theorem promised_start {follower : Follower} {cap : UInt64} {logScans : Bool} (hjson : f.FromJson)
    (hfixed : f.primaryField.isFixed = true) (hv : v.Keeps seq e) (haccepts : f.accepts e = true)
    (hseq : seq ≤ follower.watermark) : Promised (start follower cap logScans) v i f seq := by
  rcases Nat.eq_zero_or_pos i with rfl | hpos
  · exact .awaited rfl (Scan.mem_awaited_ofFilter hjson hfixed hv haccepts hseq)
  · exact .ahead hpos

/-- A promise holds in another view where the event is still there. -/
theorem Promised.of_keeps (h : Promised r v i f seq) (hr : r.Sound) (hf : r.filters[i]? = some f)
    (hjson : f.FromJson) (hfixed : f.primaryField.isFixed = true) (hv : v.Keeps seq e)
    (hv' : v'.Keeps seq e) : Promised r v' i f seq := by
  cases h with
  | delivered hseq => exact .delivered hseq
  | ahead hi => exact .ahead hi
  | awaited hi hseq =>
    have hget : r.filters[r.filterIndex]? = some f := hi ▸ hf
    obtain ⟨hs, hcont⟩ := hr.current_continues hget
    have hexact : (r.current f).IsExact v :=
      (hcont.isExact_iff v).2 (Scan.isExact_of_isFixed hjson hfixed _ hv.mirrors hv.hasIdTags)
    have hexact' : (r.current f).IsExact v' :=
      (hcont.isExact_iff v').2 (Scan.isExact_of_isFixed hjson hfixed _ hv'.mirrors hv'.hasIdTags)
    refine .awaited hi (hs.mem_awaited_of_event? hexact hexact' hv.mirrors hv'.mirrors ?_ hseq)
    rw [hv'.event?_eq, hv.event?_eq]

/-- A replay that is complete has kept its promise, unless the limit of the filter has been reached. -/
theorem delivered_of_complete (hr : r.Sound) (hf : r.filters[i]? = some f) (hjson : f.FromJson)
    (hfixed : f.primaryField.isFixed = true) (hlimit : f.limit ≠ 0) (haccepts : f.accepts e = true)
    (hseq : seq ≤ r.follower.watermark) {visits : List Visit}
    (hkeeps : ∀ x ∈ visits, x.view.Keeps seq e)
    (h : ∀ x ∈ visits, Promised r x.view i f seq) (hend : (r.visited visits).complete = true) :
    seq ∈ (r.visited visits).replay.delivered ∨ LimitReached (r.visited visits).log i f := by
  induction visits generalizing r with
  | nil => cases hend
  | cons x rest ih =>
    have hx := hkeeps x List.mem_cons_self
    have hserved : Served x.view r (r.process x.view x.clock x.faults []) := served hr
    have hfresh : seq ∈ (Scan.ofFilter f r.authorKindCap).awaited x.view r.follower.watermark :=
      Scan.mem_awaited_ofFilter hjson hfixed hx haccepts hseq
    have hslice : Promised (r.process x.view x.clock x.faults []).replay x.view i f seq
        ∨ LimitReached (r.process x.view x.clock x.faults []).log i f :=
      (h x List.mem_cons_self).process hr hf hlimit hfresh
    have hf' : (r.process x.view x.clock x.faults []).replay.filters[i]? = some f := by
      rw [filters, hserved.follower_eq]
      exact hf
    by_cases hcomplete : (r.process x.view x.clock x.faults []).outcome = .ok true
    · rw [visited_of_complete hcomplete]
      refine hslice.imp_left fun hpromised => ?_
      have hdone := List.getElem?_eq_none_iff.1 (hserved.complete hcomplete)
      have hi := (List.getElem?_eq_some_iff.1 hf').1
      cases hpromised with
      | delivered hseq => exact hseq
      | ahead hlt => omega
      | awaited heq _ => omega
    · rw [visited_of_incomplete hcomplete] at hend ⊢
      rcases hslice with hpromised | hreached
      · -- what the slice has left promised in its view is promised in those to come
        have hlater := ih hserved.sound hf' (hserved.follower_eq ▸ hseq)
          (fun y hy => hkeeps y (List.mem_cons_of_mem _ hy))
          (fun y hy => hpromised.of_keeps hserved.sound hf' hjson hfixed hx
            (hkeeps y (List.mem_cons_of_mem _ hy))) hend
        exact hlater.imp_right fun hreached => limitReached_append (.inr hreached)
      · exact .inr (limitReached_append (.inl hreached))

end

/-! ### What slices come to -/

/-- What slices of a replay of `follower` come to between which the store changes, the first against the
view `v`. -/
structure Stable (follower : Follower) (v : View) (deletes : Bool) (visits : List Visit) (whole : Repeated)
    (run : Visited) : Prop where
  le_watermark : ∀ seq ∈ run.passed, seq ≤ follower.watermark
  nodup : run.passed.Nodup
  /-- No filter that is complete has matched more different seqs than its limit. -/
  found_le : ∀ {i}, ∀ found ∈ foundIn run.log i,
    ∃ f, follower.sub.filters.filters[i]? = some f ∧ found ≤ f.limit.toNat
  /-- Nor has the current one. -/
  current_le : ∀ {f}, follower.sub.filters.filters[run.replay.filterIndex]? = some f →
    run.replay.tally.found.Nodup ∧ run.replay.tally.found.length ≤ f.limit.toNat
  /-- Where nothing is deleted, the slices deliver what one slice against the first view delivers. -/
  resumes : deletes = false → run.Resumes whole
  /-- An event that is there whenever the replay looks is delivered once by the time the replay is
  complete, if the limit of a filter that accepts it is not reached. -/
  count_eq_one : run.complete = true → ∀ {i f seq e}, follower.sub.filters.filters[i]? = some f →
    f.accepts e = true → seq ≤ follower.watermark → (∀ x ∈ visits, x.view.event? seq = some e) →
    ¬ LimitReached run.log i f → run.passed.count seq = 1

/-- A replay that is paused is stable under what is stored above its watermark and under what is
deleted. -/
theorem stable_visited {follower : Follower} {s : Store} {deletes : Bool} {visits : List Visit}
    (hs : s.Built Event.FromJson) (hg : follower.sub.filters.IsFixed)
    (hviews : s.Snapshots (fun seq e => follower.watermark < seq ∧ e.FromJson) deletes
      (visits.map Visit.view)) (cap : UInt64) (logScans : Bool) :
    Stable follower s.view deletes visits
      ((start follower cap logScans).visited [.undisturbed s.view]).toRepeated
      ((start follower cap logScans).visited visits) := by
  have hr : (start follower cap logScans).Sound := sound_start
  have hbuilt : ∀ x ∈ visits, x.view.Built Event.FromJson := fun x hx =>
    hviews.built hs (fun _ _ h => h.2) (List.mem_map_of_mem hx)
  have haccounted := hr.accounted visits
  have hdelivered : ((start follower cap logScans).visited visits).replay.delivered
      = ((start follower cap logScans).visited visits).passed := haccounted.delivered_eq
  have hnodup : ((start follower cap logScans).visited visits).passed.Nodup := by
    rw [← hdelivered]
    exact List.nodup_reverse.2 haccounted.sound.tally.nodup_sent
  refine {
    le_watermark := haccounted.le_watermark
    nodup := hnodup
    found_le := haccounted.found_le
    current_le := ?current_le
    resumes := ?resumes
    count_eq_one := ?count_eq_one }
  case current_le =>
    intro f hf
    refine ⟨haccounted.sound.tally.nodup_found, haccounted.sound.length_found_le ?_⟩
    rw [filters, haccounted.follower_eq]
    exact hf
  case resumes =>
    rintro rfl
    refine resumes_of_alike (fun x hx r hr hfollower => ?_) cap logScans
    have hagree := hviews.agree (fun _ _ h => h.1) (List.mem_map_of_mem hx)
    have hv := hbuilt x hx
    rw [← hfollower] at hg hagree
    exact outlook_eq_of_agree hr hg hagree hs.view.mirrors hs.view.hasIdTags hv.mirrors hv.hasIdTags
  case count_eq_one =>
    intro hend i f seq e hf haccepts hseq hkeeps hlimit
    have hf' : (start follower cap logScans).filters[i]? = some f := hf
    obtain ⟨hjson, hfixed⟩ := hg f (List.mem_of_getElem? hf)
    have hviews : ∀ x ∈ visits, x.view.Keeps seq e := fun x hx =>
      ⟨(hbuilt x hx).mirrors, (hbuilt x hx).hasIdTags, hkeeps x hx⟩
    have hpromised : ∀ x ∈ visits, Promised (start follower cap logScans) x.view i f seq :=
      fun x hx => promised_start hjson hfixed (hviews x hx) haccepts hseq
    have hmem := (delivered_of_complete hr hf' hjson hfixed (fun h => hlimit (.inl h)) haccepts hseq hviews
      hpromised hend).resolve_right hlimit
    rw [hdelivered] at hmem
    exact List.count_eq_one_of_mem hnodup hmem

/-- Somebody asks for one event. -/
def only (e : Event) : Filter :=
  { Filter.unrestricted with ids := some (.ofList [e.id]), indexOnly := true }

/-- Somebody asks for the newer of two notes, and then for the older. -/
def eachNote : Follower := ⟨⟨asker, ⟨[only (tagged 0x33 0 []), only (tagged 0x22 0 [])]⟩⟩, 2⟩

theorem isFixed_eachNote : eachNote.sub.filters.IsFixed := by
  have hnewer : (only (tagged 0x33 0 [])).FromJson :=
    ⟨Filter.unbounded, .object [("ids", .array [.string
      "3333333333333333333333333333333333333333333333333333333333333333"])], rfl⟩
  have holder : (only (tagged 0x22 0 [])).FromJson :=
    ⟨Filter.unbounded, .object [("ids", .array [.string
      "2222222222222222222222222222222222222222222222222222222222222222"])], rfl⟩
  intro f hf
  rcases List.mem_cons.1 hf with rfl | hf
  · exact ⟨hnewer, rfl⟩
  · cases List.mem_singleton.1 hf
    exact ⟨holder, rfl⟩

/-- The newer of the two notes has been deleted, and another has been stored. -/
def changedNotes : Store :=
  .memory ((((MemoryStore.empty.insert (tagged 0x22 10 [0x61])).insert
    (tagged 0x33 20 [0x61, 0x62])).delete? 2).getD .empty |>.insert (tagged 0x44 30 [0x62]))

theorem change_twoNotes :
    twoNotes.Change (fun seq e => 2 < seq ∧ e.FromJson) true changedNotes := by
  have hthird : (tagged 0x44 30 [0x62]).FromJson := ⟨(tagged 0x44 30 [0x62]).toJson, rfl⟩
  have hdelete : twoNotes.Change (fun seq e => 2 < seq ∧ e.FromJson) true _ :=
    Store.Change.refl.delete rfl (rfl : twoNotes.delete? 2 = _)
  exact hdelete.insert ⟨by decide +kernel, hthird⟩ (rfl : Store.insertWithText _ _ "" = _)

/-- The first slice delivers the newer note and fails in the second filter; the second slice meets the
changed store. -/
def notesVisits : List Visit :=
  [⟨twoNotes.view, .unlimited, Faults.none.arm .scanBack 1 ⟨0, ⟨"disk I/O error"⟩⟩⟩,
   .undisturbed changedNotes.view]

/-- What the slices come to. -/
def notesVisited : Visited := (start eachNote 20 false).visited notesVisits

/-- The older note, which has been there all the time, is delivered once. -/
theorem count_notesVisited : notesVisited.passed.count 1 = 1 := by
  have hviews : twoNotes.Snapshots (fun seq e => eachNote.watermark < seq ∧ e.FromJson) true
      (notesVisits.map Visit.view) := .next change_twoNotes .last
  have hstable := stable_visited built_twoNotes isFixed_eachNote hviews 20 false
  have hkeeps : ∀ x ∈ notesVisits, x.view.event? 1 = some (tagged 0x22 10 [0x61]) := by
    decide +kernel
  have hlog : foundIn notesVisited.log 1 = [1] := by decide +kernel
  have hlimit : ¬ LimitReached notesVisited.log 1 (only (tagged 0x22 0 [])) := by
    rintro (hzero | ⟨found, hfound, hle⟩)
    · exact absurd hzero (by decide)
    · rw [hlog] at hfound
      rw [List.mem_singleton.1 hfound] at hle
      exact absurd hle (by decide)
  exact hstable.count_eq_one (by decide +kernel) (rfl : _ = some (only (tagged 0x22 0 [])))
    (by decide +kernel) (by decide) hkeeps hlimit

end Replay

end EventRelay
