import EventRelay.Replay.Drain
import EventRelay.Proofs.Replay.Run
/-!
# The outlook of a replay

The outlook of a replay in a view is what it will have delivered, from its start on, when it is
complete: what it has delivered, what is left of the share of its current filter, and the yields of the
filters behind.  No slice changes the outlook, however it ends; a slice only moves seqs from what is to
come to what has been delivered.

Main statement: `served` (what a slice does to the outlook).
-/

namespace EventRelay

namespace Scan

/-- What a scan of a filter, from the first step to the last, contributes to a replay. -/
def yield (f : Filter) (authorKindCap : UInt64) (v : View) (watermark : Nat) : List Nat :=
  ((ofFilter f authorKindCap).awaited v watermark).eraseDups.take f.limit.toNat

end Scan

namespace Replay

/-- The scan of the current filter, if there is one, is a scan of that filter below its limit. -/
structure Sound (r : Replay) : Prop where
  tally : r.tally.Sound
  found_eq_nil : r.scan = none → r.tally.found = []
  scan : ∀ {s f}, r.scan = some s → r.filters[r.filterIndex]? = some f →
    s.Consistent ∧ s.Continues (Scan.ofFilter f r.authorKindCap)
      ∧ r.tally.found.length < f.limit.toNat

/-- What the current filter of a replay will have matched when its scan is complete. -/
def share (r : Replay) (v : View) (f : Filter) : List Nat :=
  (r.tally.found.reverse ++ (r.current f).awaited v r.follower.watermark).eraseDups.take f.limit.toNat

/-- What the filters behind the current one will match. -/
def behind (r : Replay) (v : View) : List Nat :=
  (r.filters.drop (r.filterIndex + 1)).flatMap fun f =>
    Scan.yield f r.authorKindCap v r.follower.watermark

/-- What a replay will have delivered when it is complete. -/
def outlook (r : Replay) (v : View) : List Nat :=
  match r.filters[r.filterIndex]? with
  | none => r.delivered
  | some f => (r.delivered ++ (r.share v f ++ r.behind v)).eraseDups

theorem outlook_of_get {r : Replay} {v : View} {f : Filter} (h : r.filters[r.filterIndex]? = some f) :
    r.outlook v = (r.delivered ++ (r.share v f ++ r.behind v)).eraseDups := by
  rw [outlook, h]

theorem outlook_of_none {r : Replay} {v : View} (h : r.filters[r.filterIndex]? = none) :
    r.outlook v = r.delivered := by
  rw [outlook, h]

theorem sound_start {follower : Follower} {cap : UInt64} {logScans : Bool} :
    (start follower cap logScans).Sound where
  tally := ⟨.nil, .nil, List.nil_subset _⟩
  found_eq_nil _ := rfl
  scan h := by cases h

/-- The outlook of a replay that has not begun: the yields of its filters. -/
theorem outlook_start {follower : Follower} {cap : UInt64} {logScans : Bool} {v : View} :
    (start follower cap logScans).outlook v =
      (follower.sub.filters.filters.flatMap fun f =>
        Scan.yield f cap v follower.watermark).eraseDups := by
  cases hfilters : follower.sub.filters.filters with
  | nil =>
    rw [outlook_of_none (by simp [start, filters, hfilters])]
    rfl
  | cons f rest =>
    have hget : (start follower cap logScans).filters[(start follower cap logScans).filterIndex]?
        = some f := by
      simp [start, filters, hfilters]
    rw [outlook_of_get hget]
    have hbehind : (start follower cap logScans).behind v
        = rest.flatMap fun f => Scan.yield f cap v follower.watermark := by
      simp [behind, start, filters, hfilters]
    have hshare : (start follower cap logScans).share v f = Scan.yield f cap v follower.watermark := rfl
    rw [hbehind, hshare, List.flatMap_cons]
    rfl

/-! ### One filter -/

section

variable {r : Replay} {v : View} {f : Filter} {run : Scan.Run Tally}

/-- The replay once a run of its scan has ended. -/
def afterRun (r : Replay) (run : Scan.Run Tally) : Replay :=
  { r with scan := some run.scan, tally := run.state }

/-- What has been found is the beginning of the share. -/
theorem share_eq_append (ht : r.tally.Sound) (hle : r.tally.found.length ≤ f.limit.toNat) :
    ∃ more, r.share v f = r.tally.found.reverse ++ more := by
  rw [share, eraseDups_append_eq, eraseDups_of_nodup (List.nodup_reverse.2 ht.nodup_found),
    List.take_append, List.take_of_length_le (by simpa using hle)]
  exact ⟨_, rfl⟩

/-- A run does not change the share of its filter. -/
theorem share_afterRun
    (h : Ran v r.follower.watermark f.limit.toNat (r.current f) r.tally run) :
    (r.afterRun run).share v f = r.share v f := by
  obtain ⟨seqs, hawaited, hnotes⟩ := h.passed
  have hcurrent : (r.afterRun run).current f = run.scan := rfl
  have hfound : (r.afterRun run).tally.found.reverse = run.state.found.reverse := rfl
  have hfollower : (r.afterRun run).follower = r.follower := rfl
  rw [share, share, hcurrent, hfound, hfollower, hnotes.found, eraseDups_eraseDups_append, hawaited,
    List.append_assoc]

theorem outlook_afterRun (hr : r.Sound) (hget : r.filters[r.filterIndex]? = some f)
    (h : Ran v r.follower.watermark f.limit.toNat (r.current f) r.tally run) :
    (r.afterRun run).outlook v = r.outlook v := by
  obtain ⟨seqs, -, hnotes⟩ := h.passed
  have hget' : (r.afterRun run).filters[(r.afterRun run).filterIndex]? = some f := hget
  have hbehind : (r.afterRun run).behind v = r.behind v := rfl
  obtain ⟨more, hshare⟩ : ∃ more, r.share v f = run.state.found.reverse ++ more := by
    rw [← share_afterRun h]
    exact share_eq_append (hnotes.sound hr.tally) h.length_found_le
  have hsubset : r.tally.found.reverse ⊆ r.tally.sent.reverse := by
    intro seq hseq
    exact List.mem_reverse.2 (hr.tally.found_subset (List.mem_reverse.1 hseq))
  -- what the filter has found now is among what has been sent now, and the rest has not moved
  have hold : (r.tally.sent.reverse ++ run.state.found.reverse).eraseDups
      = (r.tally.sent.reverse ++ seqs).eraseDups := by
    rw [hnotes.found, eraseDups_append_eraseDups, ← List.append_assoc]
    exact eraseDups_append_congr (eraseDups_append_of_subset hsubset)
  have hnew : (run.state.sent.reverse ++ run.state.found.reverse).eraseDups
      = (r.tally.sent.reverse ++ seqs).eraseDups := by
    have hsub : run.state.found.reverse ⊆ run.state.sent.reverse := by
      intro seq hseq
      exact List.mem_reverse.2 ((hnotes.sound hr.tally).found_subset (List.mem_reverse.1 hseq))
    rw [eraseDups_append_of_subset hsub, hnotes.sent, eraseDups_eraseDups]
  have hassoc : ∀ l : List Nat, l ++ (run.state.found.reverse ++ more ++ r.behind v)
      = l ++ run.state.found.reverse ++ (more ++ r.behind v) := by
    intro l
    simp only [List.append_assoc]
  rw [outlook_of_get hget', outlook_of_get hget, hbehind, share_afterRun h, hshare, hassoc, hassoc]
  exact eraseDups_append_congr (hnew.trans hold.symm)

/-- When a run is complete, its filter has delivered its share. -/
theorem share_subset_of_complete (hr : r.Sound)
    (h : Ran v r.follower.watermark f.limit.toNat (r.current f) r.tally run)
    (hend : run.outcome = .ok true) : (r.afterRun run).share v f ⊆ (r.afterRun run).delivered := by
  obtain ⟨seqs, -, hnotes⟩ := h.passed
  have hsound : run.state.Sound := hnotes.sound hr.tally
  have hfound : (r.afterRun run).share v f = run.state.found.reverse := by
    have hnodup := eraseDups_of_nodup (List.nodup_reverse.2 hsound.nodup_found)
    have hlen : run.state.found.reverse.length ≤ f.limit.toNat := by
      rw [List.length_reverse]
      exact h.length_found_le
    show (run.state.found.reverse ++ run.scan.awaited v r.follower.watermark).eraseDups.take _ = _
    rcases h.complete hend with hnone | hlimit
    · rw [hnone, List.append_nil, hnodup, List.take_of_length_le hlen]
    · rw [eraseDups_append_eq, hnodup, ← hlimit, ← List.length_reverse, List.take_append_length]
  rw [hfound]
  intro seq hseq
  exact List.mem_reverse.2 (hsound.found_subset (List.mem_reverse.1 hseq))

/-- The scan of the current filter is one of that filter, begun or not. -/
theorem Sound.current_continues (hr : r.Sound) (hget : r.filters[r.filterIndex]? = some f) :
    (r.current f).Consistent ∧ (r.current f).Continues (Scan.ofFilter f r.authorKindCap) := by
  cases hscan : r.scan with
  | some s =>
    rw [Replay.current, hscan]
    exact ⟨(hr.scan hscan hget).1, (hr.scan hscan hget).2.1⟩
  | none =>
    rw [Replay.current, hscan]
    exact ⟨Scan.consistent_ofPlan, .rfl⟩

/-- Before the current filter runs, it is below its limit. -/
theorem Sound.length_found_lt (hr : r.Sound) (hget : r.filters[r.filterIndex]? = some f)
    (hlimit : f.limit ≠ 0) : r.tally.found.length < f.limit.toNat := by
  cases hscan : r.scan with
  | some s => exact (hr.scan hscan hget).2.2
  | none =>
    rw [hr.found_eq_nil hscan]
    refine Nat.pos_of_ne_zero fun h => hlimit ?_
    exact UInt64.toNat_inj.1 h

/-- A run of the scan of the current filter. -/
theorem Sound.ran_current (hr : r.Sound) (hget : r.filters[r.filterIndex]? = some f)
    (hlimit : f.limit ≠ 0) {clock : Clock} {faults : Faults} {reports : List CorruptRow} :
    Ran v r.follower.watermark f.limit.toNat (r.current f) r.tally
      ((r.current f).run (r.control clock f.limit) v faults r.tally reports) :=
  ran (hr.current_continues hget).1 hr.tally (hr.length_found_lt hget hlimit)

theorem sound_afterRun (hr : r.Sound) (hget : r.filters[r.filterIndex]? = some f)
    (h : Ran v r.follower.watermark f.limit.toNat (r.current f) r.tally run)
    (hend : run.outcome ≠ .ok true) : (r.afterRun run).Sound := by
  obtain ⟨seqs, -, hnotes⟩ := h.passed
  refine ⟨hnotes.sound hr.tally, nofun, ?_⟩
  intro s f' hs hf'
  cases hs
  cases hget.symm.trans hf'
  exact ⟨h.consistent, h.continues.trans (hr.current_continues hget).2, h.incomplete hend⟩

/-! ### The next filter -/

theorem sound_finishFilter (ht : r.tally.Sound) : r.finishFilter.Sound where
  tally := ⟨ht.nodup_sent, .nil, List.nil_subset _⟩
  found_eq_nil _ := rfl
  scan h := by cases h

/-- A filter that has delivered its share can be left. -/
theorem outlook_finishFilter (ht : r.tally.Sound) (hget : r.filters[r.filterIndex]? = some f)
    (hshare : r.share v f ⊆ r.delivered) : r.finishFilter.outlook v = r.outlook v := by
  have hdelivered : r.finishFilter.delivered = r.delivered := rfl
  have hrest : r.outlook v = (r.delivered ++ r.behind v).eraseDups := by
    rw [outlook_of_get hget, ← List.append_assoc]
    exact eraseDups_append_congr (eraseDups_append_of_subset hshare)
  rw [hrest]
  cases hnext : r.filters[r.filterIndex + 1]? with
  | none =>
    have hget' : r.finishFilter.filters[r.finishFilter.filterIndex]? = none := hnext
    have hdrop : r.behind v = [] := by
      rw [behind, List.drop_eq_nil_iff.2 (List.getElem?_eq_none_iff.1 hnext)]
      rfl
    rw [outlook_of_none hget', hdelivered, hdrop, List.append_nil]
    exact (eraseDups_of_nodup (List.nodup_reverse.2 ht.nodup_sent)).symm
  | some f' =>
    have hget' : r.finishFilter.filters[r.finishFilter.filterIndex]? = some f' := hnext
    have hbehind : r.behind v = r.finishFilter.share v f' ++ r.finishFilter.behind v := by
      obtain ⟨hlt, hf'⟩ := List.getElem?_eq_some_iff.1 hnext
      rw [behind, List.drop_eq_getElem_cons hlt, hf']
      rfl
    rw [outlook_of_get hget', hdelivered, hbehind]

end

/-! ### Slices -/

/-- What a slice leaves of a replay. -/
structure Served (v : View) (r : Replay) (slice : Slice) : Prop where
  sound : slice.replay.Sound
  follower_eq : slice.replay.follower = r.follower
  cap_eq : slice.replay.authorKindCap = r.authorKindCap
  dead_eq : slice.replay.dead = r.dead
  outlook_eq : slice.replay.outlook v = r.outlook v
  /-- What has been delivered stays delivered. -/
  delivered : r.delivered <+: slice.replay.delivered
  complete : slice.outcome = .ok true →
    slice.replay.filters[slice.replay.filterIndex]? = none

/-- A slice that goes on behind a change of a replay is one of the replay. -/
theorem Served.behind {v : View} {r r' : Replay} {slice : Slice} (h : Served v r' slice)
    (hfollower : r'.follower = r.follower) (hcap : r'.authorKindCap = r.authorKindCap)
    (hdead : r'.dead = r.dead) (houtlook : r'.outlook v = r.outlook v)
    (hdelivered : r.delivered <+: r'.delivered) : Served v r slice where
  sound := h.sound
  follower_eq := h.follower_eq.trans hfollower
  cap_eq := h.cap_eq.trans hcap
  dead_eq := h.dead_eq.trans hdead
  outlook_eq := h.outlook_eq.trans houtlook
  delivered := hdelivered.trans h.delivered
  complete := h.complete

theorem delivered_afterRun {r : Replay} {v : View} {f : Filter} {run : Scan.Run Tally} (hr : r.Sound)
    (h : Ran v r.follower.watermark f.limit.toNat (r.current f) r.tally run) :
    r.delivered <+: (r.afterRun run).delivered := by
  obtain ⟨seqs, -, hnotes⟩ := h.passed
  show r.tally.sent.reverse <+: run.state.sent.reverse
  rw [hnotes.sent, eraseDups_append_eq, eraseDups_of_nodup (List.nodup_reverse.2 hr.tally.nodup_sent)]
  exact List.prefix_append _ _

theorem served {r : Replay} (hr : r.Sound) {v : View} {clock : Clock} {f : Faults}
    {log : List LogLine} : Served v r (r.process v clock f log) := by
  fun_induction process r v clock f log with
  | case1 r f log hget =>
    exact ⟨hr, rfl, rfl, rfl, rfl, List.prefix_refl _, fun _ => hget⟩
  | case2 r f log filter hget hlimit ih =>
    -- a limit of zero leaves the filter no share
    have hshare : r.share v filter ⊆ r.delivered := by
      rw [share, hlimit]
      exact List.nil_subset _
    exact (ih (sound_finishFilter hr.tally)).behind rfl rfl rfl (outlook_finishFilter hr.tally hget hshare)
      (List.prefix_refl _)
  | case3 r f log filter hget hlimit scan run log' e hend =>
    have hran : Ran v r.follower.watermark filter.limit.toNat (r.current filter) r.tally run :=
      hr.ran_current hget hlimit
    have hnot : run.outcome ≠ .ok true := by
      rw [hend]
      intro h
      cases h
    exact ⟨sound_afterRun hr hget hran hnot, rfl, rfl, rfl, outlook_afterRun hr hget hran,
      delivered_afterRun hr hran, fun h => by cases h⟩
  | case4 r f log filter hget hlimit scan run log' hend =>
    have hran : Ran v r.follower.watermark filter.limit.toNat (r.current filter) r.tally run :=
      hr.ran_current hget hlimit
    have hnot : run.outcome ≠ .ok true := by
      rw [hend]
      intro h
      cases h
    have hsound := sound_afterRun hr hget hran hnot
    exact ⟨⟨hsound.tally, hsound.found_eq_nil, hsound.scan⟩, rfl, rfl, rfl,
      outlook_afterRun hr hget hran, delivered_afterRun hr hran, fun h => by cases h⟩
  | case5 r f log filter hget hlimit scan run log' hend ih =>
    have hran : Ran v r.follower.watermark filter.limit.toNat (r.current filter) r.tally run :=
      hr.ran_current hget hlimit
    have htally : (r.afterRun run).tally.Sound := by
      obtain ⟨seqs, -, hnotes⟩ := hran.passed
      exact hnotes.sound hr.tally
    have houtlook : (r.afterRun run).finishFilter.outlook v = r.outlook v := by
      rw [← outlook_afterRun hr hget hran]
      exact outlook_finishFilter htally hget (share_subset_of_complete hr hran hend)
    exact (ih (sound_finishFilter htally)).behind rfl rfl rfl houtlook (delivered_afterRun hr hran)

/-- A replay that is complete has delivered its outlook. -/
theorem Served.delivered_eq {v : View} {r : Replay} {slice : Slice} (h : Served v r slice)
    (hend : slice.outcome = .ok true) : slice.replay.delivered = r.outlook v := by
  rw [← h.outlook_eq, outlook_of_none (h.complete hend)]

/-- What a slice delivers is put behind what had been delivered. -/
theorem Served.delivered_append {v : View} {r : Replay} {slice : Slice} (h : Served v r slice) :
    slice.replay.delivered = r.delivered ++ r.deliveredSince slice.replay := by
  obtain ⟨more, hmore⟩ := h.delivered
  have hsent : slice.replay.tally.sent = more.reverse ++ r.tally.sent := by
    have := congrArg List.reverse hmore
    simpa [Replay.delivered] using this.symm
  rw [← hmore, deliveredSince, hsent]
  simp

end Replay

end EventRelay
