import EventRelay.Proofs.Scan.Resumption
import EventRelay.Proofs.Store.Damage
/-!
# Matches that are read and matches that are not

A scan reads the event of a candidate before it passes the seq on, unless the index decides; then it
passes on what the index lists, whether or not there is an event any more.  So all that it passes on
can be read just if the index decides no match, and this the plan of its filter shows.

Main statements: `resolves_calls` (a scan that reads its matches passes on only events that the view of
the call holds) and `exists_unread` (the index of a view that holds no event can list a match of any other
scan).
-/

namespace EventRelay

/-- Whether a scan of a filter reads all its matches: either its plan does not let the index decide, or
the filter accepts nothing. -/
def Filter.Reads (f : Filter) (authorKindCap : UInt64) : Prop :=
  (Plan.ofFilter f authorKindCap).indexOnly = true → ∀ e, f.accepts e = false

namespace Plan

/-- For every stem of a plan and every time there is an event that has them, with no tag but such as the
filter asks for. -/
theorem IsPlan.exists_event {f : Filter} {p : Plan} (h : IsPlan f p) {stem : Bytes} (hstem : stem ∈ p.stems)
    (time : UInt64) : ∃ e : Event, stem ∈ e.stems p.index ∧ e.createdAt = time
      ∧ ∀ t ∈ e.tags, ∃ u ∈ f.tags, u.1 = t.name ∧ t.value ∈ u.2 := by
  let blank : Event := ⟨⟨List.replicate 32 0, rfl⟩, ⟨List.replicate 32 0, rfl⟩, time, 0, none, []⟩
  have hnone : ∀ t ∈ blank.tags, ∃ u ∈ f.tags, u.1 = t.name ∧ t.value ∈ u.2 := nofun
  cases h with
  | never => cases hstem
  | ids =>
    obtain ⟨i, -, rfl⟩ := List.mem_map.1 hstem
    exact ⟨{ blank with id := i }, List.mem_singleton_self _, rfl, hnone⟩
  | @tag name values _ _ hmem =>
    obtain ⟨value, hvalue, rfl⟩ := List.mem_map.1 hstem
    refine ⟨{ blank with tags := [⟨name, value⟩] }, Event.tag_mem_stems.2 (List.mem_singleton_self _), rfl,
      fun t ht => ?_⟩
    cases List.mem_singleton.1 ht
    exact ⟨_, hmem, rfl, hvalue⟩
  | authors | manyPairs =>
    obtain ⟨a, -, rfl⟩ := List.mem_map.1 hstem
    exact ⟨{ blank with author := a }, List.mem_singleton_self _, rfl, hnone⟩
  | pairs =>
    obtain ⟨a, -, hstem⟩ := List.mem_flatMap.1 hstem
    obtain ⟨k, -, rfl⟩ := List.mem_map.1 hstem
    exact ⟨{ blank with author := a, kind := k }, List.mem_singleton_self _, rfl, hnone⟩
  | kinds =>
    obtain ⟨k, -, rfl⟩ := List.mem_map.1 hstem
    exact ⟨{ blank with kind := k }, List.mem_singleton_self _, rfl, hnone⟩
  | all =>
    cases List.mem_singleton.1 hstem
    exact ⟨blank, List.mem_singleton_self _, rfl, hnone⟩

end Plan

namespace Scan

/-- Whether a scan reads all its matches: where the index decides, it has no stem, or no time fits. -/
def Reads (s : Scan) : Prop :=
  s.plan.indexOnly = true → s.plan.stems = [] ∨ s.filter.upTo < s.filter.since

variable {s s' : Scan} {v : View} {seq : Nat}

theorem Continues.reads (h : s'.Continues s) (hs : s.Reads) : s'.Reads := by
  rw [Reads, h.1, h.2]
  exact hs

theorem plan_ofFilter {f : Filter} {cap : UInt64} : (ofFilter f cap).plan = Plan.ofFilter f cap := by
  have hstems : (ofFilter f cap).cursors.map Cursor.stem = (Plan.ofFilter f cap).stems := by
    rw [ofFilter, ofPlan, List.map_map]
    exact List.map_id _
  rw [plan, hstems]
  rfl

/-- An event that a scan would not read is one that its filter accepts. -/
theorem exists_accepted {f : Filter} (hf : f.FromJson) {cap : UInt64} (h : ¬ (ofFilter f cap).Reads) :
    (Plan.ofFilter f cap).indexOnly = true ∧ ∃ stem ∈ (Plan.ofFilter f cap).stems, ∃ e,
      stem ∈ e.stems (Plan.ofFilter f cap).index ∧ e.createdAt = f.upTo ∧ f.accepts e = true
      ∧ ∀ t ∈ e.tags, t.value.length ≤ Tag.maxValueSize := by
  rw [Reads, plan_ofFilter] at h
  simp only [not_forall, not_or] at h
  obtain ⟨hindex, hstems, htime⟩ := h
  obtain ⟨stem, hstem⟩ := List.exists_mem_of_ne_nil _ hstems
  have hp := Plan.isPlan_ofFilter f cap
  -- the latest time asked for is one that fits, if any does
  obtain ⟨e, he, hat, htags⟩ := hp.exists_event hstem f.upTo
  have hfits : f.matchesTime e.createdAt = true := by
    rw [hat, Filter.matchesTime, Bool.and_eq_true, decide_eq_true_eq, decide_eq_true_eq]
    exact ⟨UInt64.not_lt.1 htime, UInt64.le_refl _⟩
  refine ⟨hindex, stem, hstem, e, he, hat, hp.accepts_of_stem hf.wellRead hindex hstem he hfits, ?_⟩
  intro t ht
  obtain ⟨u, hu, hname, hvalue⟩ := htags t ht
  exact (hf.hasSize u hu _ hvalue).length_le

theorem reads_ofFilter_iff {f : Filter} (hf : f.FromJson) {cap : UInt64} :
    (ofFilter f cap).Reads ↔ f.Reads cap := by
  constructor
  · intro hs hindex e
    rw [Reads, plan_ofFilter] at hs
    cases haccepts : f.accepts e with
    | false => rfl
    | true =>
      rcases hs hindex with hstems | htime
      · obtain ⟨stem, hstem, -⟩ := (Plan.isPlan_ofFilter f cap).exists_stem haccepts
        rw [hstems] at hstem
        cases hstem
      · have hfits := (Filter.accepts_iff.1 haccepts).2.1
        rw [Filter.matchesTime, Bool.and_eq_true, decide_eq_true_eq, decide_eq_true_eq] at hfits
        exact absurd htime (UInt64.not_lt.2 (UInt64.le_trans hfits.1 hfits.2))
  · intro hf'
    by_contra hnot
    obtain ⟨hindex, -, -, e, -, -, haccepts, -⟩ := exists_accepted hf hnot
    rw [hf' hindex e] at haccepts
    cases haccepts

/-! ### What is passed on -/

/-- What a scan that reads its matches passes on can be read. -/
theorem Consistent.resolves (hs : s.Consistent) (hreads : s.Reads) (h : seq ∈ s.hits v) :
    ∃ e, v.event? seq = some e ∧ s.filter.accepts e = true := by
  obtain ⟨x, hx, rfl⟩ := List.mem_map.1 h
  obtain ⟨hagenda, hverdict⟩ := List.mem_filter.1 hx
  rw [verdict] at hverdict
  split at hverdict
  · rename_i hindex
    rcases hreads hindex with hstems | htime
    · -- without a cursor there is nothing to judge
      have hcursors : s.cursors = [] := List.map_eq_nil_iff.1 hstems
      have hseeded : s.seeded = 0 := Nat.le_zero.1 (by simpa [hcursors] using hs.seeded_le)
      have hbuffer : s.buffer = [] := by
        apply List.eq_nil_iff_forall_not_mem.2
        intro y hy
        exact absurd (hs.numbered y hy) (hseeded ▸ Nat.not_lt_zero _)
      rw [hs.agenda_eq_nil (by rw [hseeded, hcursors]; rfl) hbuffer] at hagenda
      cases hagenda
    · rw [Filter.matchesTime, Bool.and_eq_true, decide_eq_true_eq, decide_eq_true_eq] at hverdict
      exact absurd htime (UInt64.not_lt.2 (UInt64.le_trans hverdict.1 hverdict.2))
  · cases he : v.event? x.seq with
    | none =>
      rw [he] at hverdict
      cases hverdict
    | some e =>
      rw [he] at hverdict
      exact ⟨e, rfl, hverdict⟩

/-- A run goes on with its scan, whoever runs it. -/
theorem Consistent.continues_run {σ : Type} {control : Control σ} {f : Faults} {a : σ}
    {reports : List CorruptRow} (hs : s.Consistent) :
    (s.run control v f a reports).scan.Continues s := by
  fun_induction run control v s f a reports with
  | case1 => exact .rfl
  | case2 => exact .rfl
  | case3 s f a reports s' a' hpause s'' e f' found hadv =>
    cases hs.progress_of_advance hadv with
    | failed _ hcont => exact hcont
  | case4 s f a reports s' a' hpause s'' f' found hadv ih =>
    cases hs.progress_of_advance hadv with
    | seeded hs'' hcont => exact (ih hs'').trans hcont
  | case5 s f a reports s' a' hpause s'' seq f' found a'' hmatch hadv =>
    cases hs.progress_of_advance hadv with
    | judged _ hcont => exact hcont
  | case6 s f a reports s' a' hpause s'' seq f' found a'' hmatch hadv ih =>
    cases hs.progress_of_advance hadv with
    | judged hs'' hcont => exact (ih hs'').trans hcont
  | case7 s f a reports s' a' hpause s'' seq accepted f' found hadv hrejected ih =>
    cases hs.progress_of_advance hadv with
    | judged hs'' hcont => exact (ih hs'').trans hcont

theorem prospect_subset {ends : List Nat → Bool} {told seqs : List Nat} :
    prospect ends told seqs ⊆ told ++ seqs := by
  induction seqs generalizing told with
  | nil => exact List.subset_append_left _ _
  | cons seq rest ih =>
    have hmore : told ++ [seq] ++ rest = told ++ seq :: rest := by
      rw [List.append_assoc, List.singleton_append]
    rw [prospect]
    split
    · rw [← hmore]
      exact List.subset_append_left _ _
    · rw [← hmore]
      exact ih

/-- A call passes on only hits. -/
theorem Consistent.mem_hits_of_told (hs : s.Consistent) {ends : List Nat → Bool} {a : Attempt}
    (h : seq ∈ (s.call ends v [] a).state.told) : seq ∈ s.hits v := by
  have htold : Told ends v s [] (s.call ends v [] a) := told_call hs a
  have hprospect : seq ∈ prospect ends [] (s.hits v) := by
    by_cases hend : (s.call ends v [] a).outcome = .ok true
    · rw [← htold.complete hend]
      exact h
    · rw [← htold.incomplete hend]
      exact told_prefix_prospect.subset h
  exact prospect_subset hprospect

/-! ### Call after call -/

/-- What a call meets: a view, a caller that ends the scan by what the call has passed on, and pauses and
failures. -/
structure Call where
  view : View
  ends : List Nat → Bool
  attempt : Attempt

/-- What a call has passed on, and the view that it met. -/
structure Passed where
  view : View
  seqs : List Nat

/-- Whether all that has been passed on can be read in the view of its call. -/
def Resolve (passed : List Passed) : Prop := ∀ x ∈ passed, ∀ seq ∈ x.seqs, (x.view.event? seq).isSome

/-- Calls a scan again and again. -/
def calls (s : Scan) : List Call → List Passed
  | [] => []
  | c :: rest =>
    let run := s.call c.ends c.view [] c.attempt
    ⟨c.view, run.state.told⟩ :: run.scan.calls rest

/-- Whatever views the calls meet, a scan that reads its matches passes on only events that are accepted
and that the view of the call holds. -/
theorem resolves_calls {cs : List Call} (hs : s.Consistent) (hreads : s.Reads) :
    ∀ x ∈ s.calls cs, ∀ seq ∈ x.seqs, ∃ e, x.view.event? seq = some e ∧ s.filter.accepts e = true := by
  induction cs generalizing s with
  | nil => exact nofun
  | cons c rest ih =>
    intro x hx seq hseq
    rcases List.mem_cons.1 hx with rfl | hx
    · exact hs.resolves hreads (hs.mem_hits_of_told hseq)
    · have hcont : (s.call c.ends c.view [] c.attempt).scan.Continues s := hs.continues_run
      obtain ⟨e, he, haccepts⟩ := ih (told_call hs c.attempt).consistent (hcont.reads hreads) x hx seq hseq
      exact ⟨e, he, hcont.1 ▸ haccepts⟩

/-! ### What is not read -/

/-- What stands on an agenda is what the index lists. -/
theorem agenda_congr {v' : View} (h : v'.indices = v.indices) : s.agenda v' = s.agenda v := by
  have hcoming : s.coming v' = s.coming v := by
    have hof : s.comingOf v' = s.comingOf v := by
      funext i c
      simp only [comingOf, Cursor.coming, Cursor.ahead, View.back, h]
    rw [coming, coming, hof]
  rw [agenda, agenda, hcoming]

/-- Where a scan does not read its matches, the index of a view without any event can list one. -/
theorem exists_unread {f : Filter} (hf : f.FromJson) {cap : UInt64} (h : ¬ (ofFilter f cap).Reads) :
    ∃ v, Store.History [v] ∧ (∀ seq, v.event? seq = none)
      ∧ 1 ∈ (ofFilter f cap).awaited v 1 ∧ ∀ seq ∈ (ofFilter f cap).awaited v 1, seq = 1 := by
  obtain ⟨hindex, stem, hstem, e, he, hat, haccepts, htags⟩ := exists_accepted hf h
  obtain ⟨v, hhistory, hindices, hnone⟩ := exists_damaged htags
  have hfits := (Filter.accepts_iff.1 haccepts).2.1
  -- the index lists what it listed when the event could be read
  have hagenda : (ofFilter f cap).agenda v = (ofFilter f cap).agenda (View.empty.insert e) :=
    agenda_congr hindices
  have hlisted : ∀ x, x ∈ (ofFilter f cap).agenda (View.empty.insert e) ↔ _ := fun _ =>
    mem_agenda_ofPlan (p := Plan.ofFilter f cap) (View.mirrors_empty.insert e)
  have hverdict : ∀ x : Stamp, (ofFilter f cap).verdict v x = f.matchesTime x.time := by
    intro x
    rw [verdict]
    exact if_pos hindex
  refine ⟨v, hhistory, hnone, List.mem_map.2 ⟨⟨e.createdAt, 1⟩, List.mem_filter.2 ⟨?_, ?_⟩, rfl⟩, ?_⟩
  · rw [hagenda]
    refine (hlisted _).2 ⟨stem, hstem, e, View.event?_insert, he, rfl, hfits, ?_⟩
    rw [hat]
    exact View.isClear_self
  · rw [hverdict, hfits]
    rfl
  · intro seq hseq
    obtain ⟨x, hx, rfl⟩ := List.mem_map.1 hseq
    rw [hagenda] at hx
    obtain ⟨-, -, e', he', -⟩ := (hlisted x).1 (List.mem_filter.1 hx).1
    rw [View.event?_insert] at he'
    split at he'
    · assumption
    · cases he'

theorem mem_hits_of_mem_awaited {w : Nat} (h : seq ∈ s.awaited v w) : seq ∈ s.hits v := by
  obtain ⟨x, hx, rfl⟩ := List.mem_map.1 h
  obtain ⟨hagenda, htest⟩ := List.mem_filter.1 hx
  exact List.mem_map_of_mem (List.mem_filter.2 ⟨hagenda, (Bool.and_eq_true_iff.1 htest).2⟩)

/-- A caller that never ends a scan is passed on all its hits. -/
theorem prospect_never {told seqs : List Nat} : prospect (fun _ => false) told seqs = told ++ seqs := by
  induction seqs generalizing told with
  | nil => exact (List.append_nil _).symm
  | cons seq rest ih => rw [prospect, if_neg Bool.false_ne_true, ih, List.append_assoc, List.singleton_append]

/-- All that the calls of a scan pass on can be read in the view of the call, whatever becomes of the
store, just if the scan reads its matches. -/
theorem forall_resolve_iff {f : Filter} (hf : f.FromJson) {cap : UInt64} :
    (∀ cs, Store.History (cs.map Call.view) → Resolve ((ofFilter f cap).calls cs)) ↔ f.Reads cap := by
  rw [← reads_ofFilter_iff hf]
  constructor
  · intro h
    by_contra hnot
    obtain ⟨v, hhistory, hnone, hawaited, -⟩ := exists_unread hf hnot
    have hresolve := h [⟨v, fun _ => false, .undisturbed⟩] hhistory _ (List.mem_singleton_self _) 1
    have hs : (ofFilter f cap).Consistent := consistent_ofPlan
    have htold : ((ofFilter f cap).call (fun _ => false) v [] .undisturbed).state.told
        = (ofFilter f cap).hits v := by
      rw [(told_call hs _).complete outcome_undisturbed, prospect_never, List.nil_append]
    rw [htold, hnone] at hresolve
    cases hresolve (mem_hits_of_mem_awaited hawaited)
  · intro hreads cs _ x hx seq hseq
    obtain ⟨e, he, -⟩ := resolves_calls consistent_ofPlan hreads x hx seq hseq
    rw [he]
    rfl

end Scan

end EventRelay
