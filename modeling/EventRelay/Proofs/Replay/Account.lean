import EventRelay.Proofs.Replay.Resumption
/-!
# The account of a replay

A replay delivers no seq above its watermark and none twice, and it reports, for every filter whose scan
is complete, how many seqs the filter has matched: never more than its limit.  None of this asks anything
of the views that its slices meet.

Main statement: `Sound.accounted`.
-/

namespace EventRelay

theorem Scan.le_of_mem_awaited {s : Scan} {v : View} {w seq : Nat} (h : seq ∈ s.awaited v w) :
    seq ≤ w := by
  obtain ⟨x, hx, rfl⟩ := List.mem_map.1 h
  have htest := (List.mem_filter.1 hx).2
  rw [Bool.and_eq_true, decide_eq_true_eq] at htest
  exact htest.1

/-- How many seqs filter number `i` has matched, if a line reports that its scan is complete. -/
def LogLine.found? (i : Nat) : LogLine → Option Nat
  | .scanComplete _ report => if report.filter = i then some report.found else none
  | _ => none

/-- How many seqs filter number `i` has matched, by the reports of a log. -/
def foundIn (log : List LogLine) (i : Nat) : List Nat := log.filterMap (·.found? i)

theorem mem_foundIn_append {a b : List LogLine} {i found : Nat} :
    found ∈ foundIn (a ++ b) i ↔ found ∈ foundIn a i ∨ found ∈ foundIn b i := by
  rw [foundIn, List.filterMap_append, List.mem_append]
  rfl

theorem foundIn_corruptRow {rows : List CorruptRow} {i : Nat} :
    foundIn (rows.map .corruptRow) i = [] := by
  rw [foundIn, List.filterMap_map, List.filterMap_eq_nil_iff]
  exact fun _ _ => rfl

namespace Replay

variable {r : Replay} {v : View} {clock : Clock} {f : Faults} {log : List LogLine} {i found : Nat}

theorem mem_foundIn_scanReport {s : Scan} :
    found ∈ foundIn [r.scanReport s] i ↔ r.filterIndex = i ∧ r.tally.found.length = found := by
  simp [foundIn, scanReport, LogLine.found?]

/-- Only the reports of scans count. -/
theorem mem_foundIn_append_corruptRow {rows : List CorruptRow} :
    found ∈ foundIn (log ++ rows.map .corruptRow) i ↔ found ∈ foundIn log i := by
  rw [mem_foundIn_append, foundIn_corruptRow, or_iff_left List.not_mem_nil]

/-- A slice writes behind what has been written. -/
theorem log_prefix_process : log <+: (r.process v clock f log).log := by
  fun_induction process r v clock f log with
  | case1 => exact List.prefix_append _ _
  | case2 r f log filter hget hlimit ih => exact ih
  | case3 => exact List.prefix_append _ _
  | case4 => exact List.prefix_append _ _
  | case5 r f log filter hget hlimit scan run log' hend ih =>
    have hmore : log <+: log' := List.prefix_append _ _
    exact hmore.trans ((List.prefix_append _ _).trans ih)

/-- What the current filter has matched is within its limit. -/
theorem Sound.length_found_le (hr : r.Sound) {filter : Filter}
    (hget : r.filters[r.filterIndex]? = some filter) :
    r.tally.found.length ≤ filter.limit.toNat := by
  cases hscan : r.scan with
  | none =>
    rw [hr.found_eq_nil hscan]
    exact Nat.zero_le _
  | some s => exact Nat.le_of_lt (hr.scan hscan hget).2.2

/-- What a slice reports of a filter is within its limit. -/
theorem Sound.found_process (hr : r.Sound) (h : found ∈ foundIn (r.process v clock f log).log i) :
    found ∈ foundIn log i ∨ ∃ filter, r.filters[i]? = some filter ∧ found ≤ filter.limit.toNat := by
  fun_induction process r v clock f log with
  | case1 r f log hget =>
    exact .inl ((mem_foundIn_append.1 h).resolve_right List.not_mem_nil)
  | case2 r f log filter hget hlimit ih => exact ih (sound_finishFilter hr.tally) h
  | case3 r f log filter hget hlimit scan run log' e hend =>
    exact .inl (mem_foundIn_append_corruptRow.1 h)
  | case4 r f log filter hget hlimit scan run log' hend =>
    exact .inl (mem_foundIn_append_corruptRow.1 h)
  | case5 r f log filter hget hlimit scan run log' hend ih =>
    have hran : Ran v r.follower.watermark filter.limit.toNat (r.current filter) r.tally run :=
      hr.ran_current hget hlimit
    obtain ⟨seqs, -, hnotes⟩ := hran.passed
    rcases ih (sound_finishFilter (hnotes.sound hr.tally)) h with h | h
    · rcases mem_foundIn_append.1 h with h | h
      · exact .inl (mem_foundIn_append_corruptRow.1 h)
      · obtain ⟨rfl, rfl⟩ := mem_foundIn_scanReport.1 h
        exact .inr ⟨filter, hget, hran.length_found_le⟩
    · exact .inr h

/-- What a replay will deliver beyond what it has, some scan of one of its filters awaits. -/
theorem Sound.mem_outlook (hr : r.Sound) {seq : Nat} (h : seq ∈ r.outlook v) :
    seq ∈ r.delivered ∨ ∃ filter ∈ r.filters, filter.limit ≠ 0 ∧ ∃ s : Scan, s.Consistent
      ∧ s.Continues (Scan.ofFilter filter r.authorKindCap) ∧ seq ∈ s.awaited v r.follower.watermark := by
  cases hget : r.filters[r.filterIndex]? with
  | none =>
    rw [outlook_of_none hget] at h
    exact .inl h
  | some filter =>
    have hlimit : ∀ {f : Filter} {l : List Nat}, seq ∈ l.take f.limit.toNat → f.limit ≠ 0 := by
      intro f l hseq hzero
      rw [hzero] at hseq
      exact List.not_mem_nil hseq
    rw [outlook_of_get hget, List.mem_eraseDups, List.mem_append, List.mem_append] at h
    rcases h with h | h | h
    · exact .inl h
    · rcases List.mem_append.1 (List.mem_eraseDups.1 (List.mem_of_mem_take h)) with hold | hnew
      · exact .inl (List.mem_reverse.2 (hr.tally.found_subset (List.mem_reverse.1 hold)))
      · obtain ⟨hs, hcont⟩ := hr.current_continues hget
        exact .inr ⟨filter, List.mem_of_getElem? hget, hlimit h, _, hs, hcont, hnew⟩
    · obtain ⟨later, hlater, h⟩ := List.mem_flatMap.1 h
      exact .inr ⟨later, List.mem_of_mem_drop hlater, hlimit h, _, Scan.consistent_ofPlan, .rfl,
        List.mem_eraseDups.1 (List.mem_of_mem_take h)⟩

/-- What a slice delivers is new, and some scan of one of the filters has awaited it. -/
theorem Served.exists_awaiting {slice : Slice} (h : Served v r slice) (hr : r.Sound) {seq : Nat}
    (hseq : seq ∈ r.deliveredSince slice.replay) :
    ∃ filter ∈ r.filters, filter.limit ≠ 0 ∧ ∃ s : Scan, s.Consistent
      ∧ s.Continues (Scan.ofFilter filter r.authorKindCap) ∧ seq ∈ s.awaited v r.follower.watermark := by
  have hnodup : slice.replay.delivered.Nodup := List.nodup_reverse.2 h.sound.tally.nodup_sent
  rw [h.delivered_append] at hnodup
  have hout : seq ∈ r.outlook v := by
    rw [← h.outlook_eq]
    apply h.sound.delivered_prefix_outlook.subset
    rw [h.delivered_append]
    exact List.mem_append_right _ hseq
  rcases hr.mem_outlook hout with hold | hnew
  · exact absurd rfl ((List.nodup_append.1 hnodup).2.2 _ hold _ hseq)
  · exact hnew

theorem Served.le_watermark {slice : Slice} (h : Served v r slice) (hr : r.Sound) {seq : Nat}
    (hseq : seq ∈ r.deliveredSince slice.replay) : seq ≤ r.follower.watermark := by
  obtain ⟨-, -, -, s, -, -, hawaited⟩ := h.exists_awaiting hr hseq
  exact Scan.le_of_mem_awaited hawaited

/-- What slices keep to, whatever they meet. -/
structure Accounted (r : Replay) (run : Visited) : Prop where
  sound : run.replay.Sound
  follower_eq : run.replay.follower = r.follower
  delivered_eq : run.replay.delivered = r.delivered ++ run.passed
  le_watermark : ∀ seq ∈ run.passed, seq ≤ r.follower.watermark
  found_le : ∀ {i}, ∀ found ∈ foundIn run.log i, ∃ filter, r.filters[i]? = some filter ∧ found ≤ filter.limit.toNat
  complete : run.complete = true → run.replay.filters[run.replay.filterIndex]? = none

theorem Sound.accounted (hr : r.Sound) (visits : List Visit) : Accounted r (r.visited visits) := by
  induction visits generalizing r with
  | nil =>
    exact ⟨hr, rfl, (List.append_nil _).symm, fun _ h => absurd h List.not_mem_nil,
      fun _ h => absurd h List.not_mem_nil, fun h => by cases h⟩
  | cons x rest ih =>
    have hserved : Served x.view r (r.process x.view x.clock x.faults []) := served hr
    have hfound : ∀ {i}, ∀ found ∈ foundIn (r.process x.view x.clock x.faults []).log i,
        ∃ filter, r.filters[i]? = some filter ∧ found ≤ filter.limit.toNat :=
      fun _ h => (hr.found_process h).resolve_left List.not_mem_nil
    by_cases hend : (r.process x.view x.clock x.faults []).outcome = .ok true
    · rw [visited_of_complete hend]
      exact ⟨hserved.sound, hserved.follower_eq, hserved.delivered_append,
        fun _ h => hserved.le_watermark hr h, hfound, fun _ => hserved.complete hend⟩
    · have hlater := ih hserved.sound
      have hfilters : (r.process x.view x.clock x.faults []).replay.filters = r.filters := by
        rw [filters, hserved.follower_eq, filters]
      rw [visited_of_incomplete hend]
      refine {
        sound := hlater.sound
        follower_eq := hlater.follower_eq.trans hserved.follower_eq
        delivered_eq := ?delivered_eq
        le_watermark := ?le_watermark
        found_le := ?found_le
        complete := hlater.complete }
      case delivered_eq =>
        rw [hlater.delivered_eq, hserved.delivered_append, List.append_assoc]
      case le_watermark =>
        intro seq hseq
        rcases List.mem_append.1 hseq with hseq | hseq
        · exact hserved.le_watermark hr hseq
        · rw [← hserved.follower_eq]
          exact hlater.le_watermark seq hseq
      case found_le =>
        intro i found h
        rcases mem_foundIn_append.1 h with h | h
        · exact hfound _ h
        · rw [← hfilters]
          exact hlater.found_le _ h

end Replay

end EventRelay
