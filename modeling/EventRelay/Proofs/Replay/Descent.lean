import EventRelay.Proofs.Replay.Delivery
import EventRelay.Proofs.Scan.Descent
/-!
# The descent of a replay

A replay that gets slices, each against a view of its own and with a clock of its own, descends with
every slice that pauses: it completes a filter, takes the scan of its filter down, or has looked at the
clock before anything else, and then the next look is not due at once.  None of this depends on what the
views hold, so that the store may change between the slices in any way.

Main statements: `Sound.rank_lt_of_paused` (a slice that pauses goes down) and `Sound.completes` (after
finitely many slices a replay is complete, and stays so).
-/

namespace EventRelay

namespace Replay

/-! ### One slice -/

/-- The ranks of replays, ordered by the filters, then by the scan, then by the clock. -/
abbrev Rank := ℕ ×ₗ Scan.Rank ×ₗ ℕ

/-- How far a replay has still to go: filters, the scan of the current one, and a look at the clock that
is due. -/
def rank (r : Replay) : Rank :=
  toLex (r.filtersLeft, match r.filters[r.filterIndex]? with
    | none => 0
    | some f => toLex ((r.current f).rank, due r.tally (r.current f)))

theorem rank_of_get {r : Replay} {f : Filter} (h : r.filters[r.filterIndex]? = some f) :
    r.rank = toLex (r.filtersLeft, toLex ((r.current f).rank, due r.tally (r.current f))) := by
  rw [rank, h]

theorem rank_finishFilter_lt {r : Replay} {f : Filter} (h : r.filters[r.filterIndex]? = some f) :
    r.finishFilter.rank < r.rank :=
  Prod.Lex.toLex_lt_toLex.2 (.inl (filtersLeft_finishFilter_lt h))

/-- A run that pauses takes its replay down. -/
theorem Sound.rank_lt_of_run {r r' : Replay} (hr : r.Sound) {v : View} {clock : Clock} {f : Faults}
    {filter : Filter} (hget : r.filters[r.filterIndex]? = some filter) {run : Scan.Run Tally}
    (hrun : (r.current filter).run (r.control clock filter.limit) v f r.tally [] = run)
    (h : run.outcome = .ok false)
    (hr' : r' = { r with scan := some run.scan, tally := run.state, pauses := r.pauses + 1 }) :
    r'.rank < r.rank := by
  subst hr'
  have hafter := rank_of_get
    (r := { r with scan := some run.scan, tally := run.state, pauses := r.pauses + 1 }) hget
  have hafter : _ = toLex (r.filtersLeft, toLex (run.scan.rank, due run.state run.scan)) := hafter
  rw [hafter, rank_of_get hget]
  refine Prod.Lex.toLex_lt_toLex.2 (.inr ⟨rfl, Prod.Lex.toLex_lt_toLex.2 ?_⟩)
  obtain ⟨a, ha, hlt⟩ :=
    (hr.current_continues hget).1.descended ((congrArg Scan.Run.outcome hrun).trans h)
  rw [hrun] at ha hlt
  obtain ⟨hdue, hcheck⟩ := of_pause ha
  rcases hlt with hlt | ⟨hsame, hwork, rfl⟩
  · exact .inl hlt
  · -- nothing but the look at the clock has been done, and now it has been
    have hnone : due run.state run.scan = 0 := if_neg (by rw [hcheck, workPerCheck]; omega)
    have hone : due r.tally (r.current filter) = 1 := if_pos (by omega)
    exact .inr ⟨hsame, by simp only [hnone, hone]; omega⟩

/-- A slice that pauses takes its replay down, whatever the view and the clock. -/
theorem Sound.rank_lt_of_paused {r : Replay} (hr : r.Sound) {v : View} {clock : Clock} {f : Faults}
    {log : List LogLine} (h : (r.process v clock f log).outcome = .ok false) :
    (r.process v clock f log).replay.rank < r.rank := by
  fun_induction process r v clock f log with
  | case1 => cases h
  | case2 r f log filter hget hlimit ih =>
    exact (ih (sound_finishFilter hr.tally) h).trans (rank_finishFilter_lt hget)
  | case3 => cases h
  | case4 r f log filter hget hlimit scan run log' hend => exact hr.rank_lt_of_run hget rfl hend rfl
  | case5 r f log filter hget hlimit scan run log' hend ih =>
    have htally : run.state.Sound := by
      obtain ⟨seqs, -, hnotes⟩ := (hr.ran_current hget hlimit).passed
      exact hnotes.sound hr.tally
    refine (ih (sound_finishFilter htally) h).trans ?_
    exact Prod.Lex.toLex_lt_toLex.2 (.inl (filtersLeft_finishFilter_lt hget))

/-! ### Slice by slice -/

section

variable {r : Replay} {views : ℕ → View} {clocks : ℕ → Clock}

/-- A replay after `n` slices, each against a view of its own, with a clock of its own. -/
def sliced (r : Replay) (views : ℕ → View) (clocks : ℕ → Clock) : ℕ → Replay
  | 0 => r
  | n + 1 => ((sliced r views clocks n).process (views n) (clocks n) .none []).replay

/-- How slice number `n` ends. -/
def ending (r : Replay) (views : ℕ → View) (clocks : ℕ → Clock) (n : ℕ) : Except ReadError Bool :=
  ((r.sliced views clocks n).process (views n) (clocks n) .none []).outcome

theorem Sound.sliced (hr : r.Sound) (n : ℕ) : (r.sliced views clocks n).Sound := by
  induction n with
  | zero => exact hr
  | succ n ih => exact (served ih).sound

/-- A slice ends with an answer. -/
theorem exists_ending (n : ℕ) : ∃ b, r.ending views clocks n = .ok b := by
  cases h : r.ending views clocks n with
  | ok b => exact ⟨b, rfl⟩
  | error e => exact absurd h (process_none rfl e)

/-- A replay that is complete gets no further. -/
theorem process_of_complete (h : r.filters[r.filterIndex]? = none) {v : View} {clock : Clock}
    {f : Faults} {log : List LogLine} :
    r.process v clock f log = ⟨r, .ok true, f, log ++ [r.replayReport]⟩ := by
  rw [process]
  split
  · rfl
  · rename_i filter hget
    cases h.symm.trans hget

/-- Once a slice has completed a replay, no slice changes it any more, and all of them complete it. -/
theorem Sound.ending_of_complete (hr : r.Sound) {n : ℕ} (h : r.ending views clocks n = .ok true) :
    ∀ m, n ≤ m → r.ending views clocks m = .ok true := by
  have hcomplete : (r.sliced views clocks (n + 1)).filters[
      (r.sliced views clocks (n + 1)).filterIndex]? = none := (served (hr.sliced n)).complete h
  have hstays : ∀ k, r.sliced views clocks (n + 1 + k) = r.sliced views clocks (n + 1) := by
    intro k
    induction k with
    | zero => rfl
    | succ k ih =>
      show ((r.sliced views clocks (n + 1 + k)).process _ _ _ _).replay = _
      rw [ih, process_of_complete hcomplete]
  intro m hm
  rcases Nat.eq_or_lt_of_le hm with rfl | hlt
  · exact h
  · obtain ⟨k, rfl⟩ := Nat.exists_eq_add_of_le hlt
    rw [ending, hstays k, process_of_complete hcomplete]

/-- Some slice completes the replay, the ones before it pause and the ones behind it have nothing to
do. -/
theorem Sound.completes (hr : r.Sound) :
    ∃ n, ∀ m, r.ending views clocks m = .ok (decide (n ≤ m)) := by
  have hsome : ∃ n, r.ending views clocks n = .ok true := by
    obtain ⟨n, hn⟩ := WellFounded.not_rel_apply_succ (r := (· < ·))
      fun n => (r.sliced views clocks n).rank
    obtain ⟨b, hb⟩ := @exists_ending r views clocks n
    cases b with
    | true => exact ⟨n, hb⟩
    | false => exact absurd ((hr.sliced n).rank_lt_of_paused hb) hn
  refine ⟨Nat.find hsome, fun m => ?_⟩
  by_cases hm : Nat.find hsome ≤ m
  · rw [decide_eq_true hm]
    exact hr.ending_of_complete (Nat.find_spec hsome) m hm
  · rw [decide_eq_false hm]
    obtain ⟨b, hb⟩ := @exists_ending r views clocks m
    cases b with
    | true => exact absurd hb (Nat.find_min hsome (Nat.lt_of_not_le hm))
    | false => exact hb

end

end Replay

end EventRelay
