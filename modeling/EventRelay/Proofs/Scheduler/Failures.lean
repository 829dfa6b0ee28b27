import EventRelay.Scheduler
import EventRelay.Proofs.Replay.Descent
/-!
# The failures that a turn can meet

A replay reads the index and single events; new events are walked over by others.  So a turn goes the same
way whichever walks over new events fail, and takes nothing off the failures planned for these.

Main statements: `Scan.run_withoutNews`, `Replay.process_withoutNews` and `Scheduler.process_withoutNews`.
-/

namespace EventRelay

/-! ### Reads -/

/-- The failures that a replay can meet: all but those of the walks over new events. -/
def Faults.withoutNews (f : Faults) : Faults := { f with eventsAfter := [] }

theorem Faults.read_withoutNews {α : Type} {f : Faults} (m : ReadMethod) (hm : m ≠ .eventsAfter) (a : α) :
    f.withoutNews.read m a = ((f.read m a).1, (f.read m a).2.withoutNews) := by
  have hcall : f.withoutNews.call m = ((f.call m).1, (f.call m).2.withoutNews) := by
    have hplan : f.withoutNews.plan m = f.plan m := by
      cases m with
      | eventsAfter => exact absurd rfl hm
      | _ => rfl
    rw [call, call, hplan]
    cases f.plan m with
    | nil => rfl
    | cons outcome rest =>
      cases m with
      | eventsAfter => exact absurd rfl hm
      | _ => rfl
  rw [read, read, hcall]
  cases f.call m with
  | mk outcome f' =>
    cases outcome with
    | none => rfl
    | some visits => rfl

theorem Faults.walk_withoutNews {α : Type} (f : Faults) (l : List α) :
    (f.walk .eventsAfter l).2.2.withoutNews = f.withoutNews := by
  obtain ⟨snapshot, latestSeq, event, scanBack, eventsAfter⟩ := f
  cases eventsAfter with
  | nil => rfl
  | cons outcome rest =>
    cases outcome with
    | none => rfl
    | some visits => rfl

section

variable {v : View} {f : Faults}

/-! ### Scans -/

theorem Cursor.collect_withoutNews {c : Cursor} {k : IndexKind} {since : UInt64} {number limit : Nat} :
    c.collect v f.withoutNews k since number limit
      = ((c.collect v f k since number limit).1, (c.collect v f k since number limit).2.withoutNews) := by
  rw [collect, collect]
  split
  · exact Faults.read_withoutNews .scanBack (by decide) _
  · rfl

namespace Scan

theorem judge_withoutNews {s : Scan} {next : Candidate} : s.judge v f.withoutNews next
    = { s.judge v f next with faults := (s.judge v f next).faults.withoutNews } := by
  rw [judge, judge]
  split
  · rfl
  · have hread : v.readRow f.withoutNews next.seq
        = ((v.readRow f next.seq).1, (v.readRow f next.seq).2.withoutNews) :=
      Faults.read_withoutNews .event (by decide) _
    rw [hread]
    rcases v.readRow f next.seq with ⟨_ | _ | _, f'⟩
    · rfl
    · rfl
    · rfl

theorem refill_withoutNews {s : Scan} {number : Nat} : s.refill v f.withoutNews number
    = ((s.refill v f number).1, (s.refill v f number).2.withoutNews) := by
  rw [refill, refill]
  cases s.cursors[number]? with
  | none => rfl
  | some c =>
    simp only [Cursor.collect_withoutNews]
    split
    · rcases c.collect v f s.index s.filter.since number s.refillBatch with ⟨_ | _, f'⟩
      · rfl
      · rfl
    · rfl

theorem advance_withoutNews {s : Scan} : s.advance v f.withoutNews
    = { s.advance v f with faults := (s.advance v f).faults.withoutNews } := by
  rw [advance, advance]
  cases s.cursors[s.seeded]? with
  | some c =>
    simp only [Cursor.collect_withoutNews]
    rcases c.collect v f s.index s.filter.since s.seeded s.initialBatch with ⟨_ | _, f'⟩
    · rfl
    · rfl
  | none =>
    cases s.buffer with
    | nil => rfl
    | cons next rest =>
      simp only [judge_withoutNews, refill_withoutNews]
      rcases judge _ v f next with ⟨_ | accepted, f', reports⟩
      · rfl
      · simp only
        rcases refill _ v f' next.cursor with ⟨_ | b, f''⟩
        · rfl
        · rfl

theorem run_withoutNews {σ : Type} (control : Control σ) (s : Scan) (f : Faults) (a : σ)
    (reports : List CorruptRow) : run control v s f.withoutNews a reports
      = { run control v s f a reports with
          faults := (run control v s f a reports).faults.withoutNews } := by
  fun_induction run control v s f a reports with
  | case1 s f a reports s' a' hpause =>
    have hpause : control.pause a (s.work + 1) = (a', true) := hpause
    rw [run, hpause]
  | case2 s f a reports s' a' hpause f' found hadv =>
    rw [run_eq_carryOn hpause, advance_withoutNews, hadv]
    rfl
  | case3 s f a reports s' a' hpause s'' e f' found hadv =>
    rw [run_eq_carryOn hpause, advance_withoutNews, hadv]
    rfl
  | case4 s f a reports s' a' hpause s'' f' found hadv ih =>
    rw [run_eq_carryOn hpause, advance_withoutNews, hadv]
    exact ih
  | case5 s f a reports s' a' hpause s'' seq f' found a'' hmatch hadv =>
    rw [run_eq_carryOn hpause, advance_withoutNews, hadv]
    simp only [carryOn, hmatch, if_true]
  | case6 s f a reports s' a' hpause s'' seq f' found a'' hmatch hadv ih =>
    rw [run_eq_carryOn hpause, advance_withoutNews, hadv]
    simp only [carryOn, hmatch, if_true]
    exact ih
  | case7 s f a reports s' a' hpause s'' seq accepted f' found hadv hrefused ih =>
    rw [run_eq_carryOn hpause, advance_withoutNews, hadv]
    simp only [carryOn, if_neg hrefused]
    exact ih

end Scan

/-! ### Slices and turns -/

namespace Replay

/-- A slice whose current filter asks for nothing. -/
theorem process_of_limit {r : Replay} {clock : Clock} {log : List LogLine} {filter : Filter}
    (hget : r.filters[r.filterIndex]? = some filter) (hlimit : filter.limit = 0) :
    r.process v clock f log = r.finishFilter.process v clock f log := by
  rw [process]
  split
  · rename_i hnone
    cases hget.symm.trans hnone
  · rename_i filter' hget'
    cases hget.symm.trans hget'
    exact if_pos hlimit

/-- A slice whose current filter is to be scanned. -/
theorem process_of_run {r : Replay} {clock : Clock} {log : List LogLine} {filter : Filter}
    {run : Scan.Run Tally} (hget : r.filters[r.filterIndex]? = some filter) (hlimit : filter.limit ≠ 0)
    (hrun : (r.scan.getD (Scan.ofFilter filter r.authorKindCap)).run (r.control clock filter.limit) v f
      r.tally [] = run) :
    r.process v clock f log
      = match run.outcome with
        | .error e => ⟨{ r with scan := some run.scan, tally := run.state }, .error e, run.faults,
            log ++ run.reports.map .corruptRow⟩
        | .ok false =>
          ⟨{ r with scan := some run.scan, tally := run.state, pauses := r.pauses + 1 }, .ok false,
            run.faults, log ++ run.reports.map .corruptRow⟩
        | .ok true =>
          process { r with scan := some run.scan, tally := run.state }.finishFilter v clock run.faults
            (log ++ run.reports.map .corruptRow
              ++ [{ r with scan := some run.scan, tally := run.state }.scanReport run.scan]) := by
  rw [process]
  split
  · rename_i hnone
    cases hget.symm.trans hnone
  · rename_i filter' hget'
    cases hget.symm.trans hget'
    subst hrun
    exact if_neg hlimit

theorem process_withoutNews (r : Replay) (clock : Clock) (f : Faults) (log : List LogLine) :
    r.process v clock f.withoutNews log
      = { r.process v clock f log with faults := (r.process v clock f log).faults.withoutNews } := by
  fun_induction process r v clock f log with
  | case1 r f log hnone => rw [process_of_complete hnone]
  | case2 r f log filter hget hlimit ih =>
    rw [process_of_limit hget hlimit]
    exact ih
  | case3 r f log filter hget hlimit scan run log' e hend =>
    have hend : (scan.run (r.control clock filter.limit) v f r.tally []).outcome = .error e := hend
    rw [process_of_run hget hlimit (Scan.run_withoutNews _ scan f _ _)]
    simp only [hend]
    rfl
  | case4 r f log filter hget hlimit scan run log' hend =>
    have hend : (scan.run (r.control clock filter.limit) v f r.tally []).outcome = .ok false := hend
    rw [process_of_run hget hlimit (Scan.run_withoutNews _ scan f _ _)]
    simp only [hend]
    rfl
  | case5 r f log filter hget hlimit scan run log' hend ih =>
    have hend : (scan.run (r.control clock filter.limit) v f r.tally []).outcome = .ok true := hend
    rw [process_of_run hget hlimit (Scan.run_withoutNews _ scan f _ _)]
    simp only [hend]
    exact ih

end Replay

theorem Scheduler.process_withoutNews (s : Scheduler) (clock : Clock) (f : Faults) :
    s.process v clock f.withoutNews
      = { s.process v clock f with faults := (s.process v clock f).faults.withoutNews } := by
  rw [process, process]
  split
  · rfl
  · simp only
    split
    · rfl
    · split
      · rfl
      · rename_i r _ _
        simp only [Replay.process_withoutNews]
        split
        · rfl
        · rfl
        · rfl

end

end EventRelay
