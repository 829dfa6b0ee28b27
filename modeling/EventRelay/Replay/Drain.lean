import EventRelay.Replay
/-!
# Draining a replay

Against a view that does not change a replay becomes complete after finitely many slices, however often
it pauses: a slice that pauses completes a filter, gets on with a scan, or was paused at its very first
look at the clock, and then the next look is not due at once.

Main statement: `lex_of_paused`, which makes `drain` end.
-/

namespace EventRelay

namespace Replay

/-! ### What is left to do -/

/-- The scan of a filter, as far as it has come. -/
def current (r : Replay) (filter : Filter) : Scan :=
  r.scan.getD (Scan.ofFilter filter r.authorKindCap)

/-- Whether a look at the clock is due before the next step. -/
def due (t : Tally) (s : Scan) : Nat := if t.lastCheck + workPerCheck < s.work + 1 then 1 else 0

/-- What the current filter leaves to do in a view.  A look at the clock that is due counts, too, for it
may end a slice before anything else is done. -/
def remaining (r : Replay) (v : View) : Nat :=
  match r.filters[r.filterIndex]? with
  | none => 0
  | some filter => 2 * (r.current filter).remaining v + due r.tally (r.current filter)

theorem remaining_of_get {r : Replay} {v : View} {filter : Filter}
    (h : r.filters[r.filterIndex]? = some filter) :
    r.remaining v = 2 * (r.current filter).remaining v + due r.tally (r.current filter) := by
  rw [remaining, h]

theorem of_pause {r : Replay} {clock : Clock} {limit : UInt64} {a b : Tally} {work : Nat}
    (h : (r.control clock limit).pause a work = (b, true)) :
    a.lastCheck + workPerCheck < work ∧ b.lastCheck = work := by
  simp only [control] at h
  split at h
  · rename_i hdue
    exact ⟨hdue, (congrArg Tally.lastCheck (Prod.mk.inj h).1).symm⟩
  · exact absurd (Prod.mk.inj h).2 (by decide)

/-- The filters that are not complete. -/
def filtersLeft (r : Replay) : Nat := r.filters.length - r.filterIndex

theorem filtersLeft_finishFilter_lt {r : Replay} {filter : Filter}
    (h : r.filters[r.filterIndex]? = some filter) : r.finishFilter.filtersLeft < r.filtersLeft := by
  have := (List.getElem?_eq_some_iff.1 h).1
  simp only [filtersLeft, finishFilter, filters] at this ⊢
  omega

theorem lex_of_lt {a b c : Nat × Nat} (h : Prod.Lex (· < ·) (· < ·) a b) (hlt : b.1 < c.1) :
    Prod.Lex (· < ·) (· < ·) a c := by
  rw [Prod.lex_def] at h ⊢
  omega

/-! ### Pauses -/

theorem remaining_lt_of_run {r : Replay} {v : View} {clock : Clock} {f : Faults} {filter : Filter}
    (hget : r.filters[r.filterIndex]? = some filter) {run : Scan.Run Tally}
    (hrun : (r.current filter).run (r.control clock filter.limit) v f r.tally [] = run)
    (h : run.outcome = .ok false) :
    ({ r with scan := some run.scan, tally := run.state, pauses := r.pauses + 1 } : Replay).remaining v
      < r.remaining v := by
  obtain ⟨a, ha, hlt⟩ := Scan.run_paused ((congrArg Scan.Run.outcome hrun).trans h)
  rw [hrun] at ha hlt
  obtain ⟨hdue, hcheck⟩ := of_pause ha
  have hafter := remaining_of_get (v := v)
    (r := { r with scan := some run.scan, tally := run.state, pauses := r.pauses + 1 }) hget
  have hbefore := remaining_of_get (v := v) hget
  have hnone : due run.state run.scan = 0 := if_neg (by rw [hcheck, workPerCheck]; omega)
  have hafter : _ = 2 * run.scan.remaining v + due run.state run.scan := hafter
  rcases hlt with hlt | ⟨heq, hwork, rfl⟩
  · omega
  · have hone : due r.tally (r.current filter) = 1 := if_pos (by omega)
    omega

/-- A slice that pauses leaves less to do than it found. -/
theorem lex_of_paused {r : Replay} {v : View} {clock : Clock} {f : Faults} {log : List LogLine}
    (h : (r.process v clock f log).outcome = .ok false) :
    Prod.Lex (· < ·) (· < ·)
      ((r.process v clock f log).replay.filtersLeft, (r.process v clock f log).replay.remaining v)
      (r.filtersLeft, r.remaining v) := by
  fun_induction process r v clock f log with
  | case1 => cases h
  | case2 r f log filter hget hlimit ih => exact lex_of_lt (ih h) (filtersLeft_finishFilter_lt hget)
  | case3 => cases h
  | case4 r f log filter hget hlimit scan run log' hrun =>
    exact Prod.Lex.right _ (remaining_lt_of_run hget rfl hrun)
  | case5 r f log filter hget hlimit scan run log' hrun ih =>
    exact lex_of_lt (ih h)
      (filtersLeft_finishFilter_lt (r := { r with scan := some run.scan, tally := run.state }) hget)

/-! ### Draining -/

/-- Runs a replay slice by slice against one view until it is complete or a read fails. -/
def drain (r : Replay) (v : View) (clock : Clock) (f : Faults) (log : List LogLine) : Slice :=
  let slice := r.process v clock f log
  match _h : slice.outcome with
  | .ok false => drain slice.replay v clock slice.faults slice.log
  | _ => slice
termination_by (r.filtersLeft, r.remaining v)
decreasing_by exact lex_of_paused _h

end Replay
end EventRelay
