import Mathlib.Algebra.GroupWithZero.Nat
import EventRelay.Proofs.Replay.Resumption
/-!
# The work of a slice

A slice whose time is used up from the start pauses at the first look at the clock.  In the scan of one
filter it comes to that look after the work between two looks, and the step that is under way may go beyond
it.  But the count starts anew with every filter, so a slice may spend as much on each filter that it
completes without looking at the clock.

Main statements: `Scan.metered_run` (what a run keeps true of its work), `spent_exhausted` (what a slice
without time spends) and `spent_empty` (what it costs to find an empty store empty).
-/

namespace EventRelay

/-! ### One step -/

theorem Cursor.visited_gather_le {stem : Bytes} {since : UInt64} {number limit : Nat} {l : List Entry} :
    (gather stem since number limit l).visited ≤ limit := by
  induction l generalizing limit with
  | nil => cases limit <;> exact Nat.zero_le _
  | cons e rest ih =>
    cases limit with
    | zero => exact Nat.le_refl _
    | succ limit =>
      rw [gather]
      split
      · split
        · exact Nat.succ_le_succ (Nat.zero_le _)
        · split
          · exact Nat.succ_le_succ (Nat.zero_le _)
          · exact Nat.succ_le_succ ih
      · exact Nat.succ_le_succ (Nat.zero_le _)

theorem Cursor.visited_le_of_collect {c : Cursor} {v : View} {k : IndexKind} {since : UInt64}
    {number limit : Nat} {f f' : Faults} {b : Batch}
    (h : c.collect v f k since number limit = (.ok b, f')) : b.visited ≤ limit := by
  rcases eq_of_collect h with ⟨-, rfl⟩ | ⟨-, rfl⟩
  · exact Nat.zero_le _
  · exact visited_gather_le

namespace Scan

variable {s s' : Scan} {v : View} {f f' : Faults}

/-- The scan that a step leaves, unless nothing was left to do. -/
def Advance.left? : Advance → Option Scan
  | .finished => none
  | .failed s _ | .seeded s | .judged s _ _ => some s

/-- What one step adds to the work at most: an event and a batch are read. -/
structure Costs (s s' : Scan) : Prop where
  initialBatch_eq : s'.initialBatch = s.initialBatch
  le_work : s.work ≤ s'.work
  work_le : s'.work ≤ s.work + fetchCost + s.refillBatch

theorem costs_of_work_eq {n : Nat} (hbatch : s'.initialBatch = s.initialBatch) (hwork : s'.work = s.work + n)
    (h : n ≤ fetchCost + s.refillBatch) : s.Costs s' := by
  refine ⟨hbatch, ?_, ?_⟩
  · rw [hwork]
    exact Nat.le_add_right _ _
  · rw [hwork, Nat.add_assoc]
    exact Nat.add_le_add_left h _

theorem judgingCost_le : s.judgingCost ≤ fetchCost := by
  rw [judgingCost]
  split
  · exact Nat.zero_le _
  · exact Nat.le_refl _

theorem initialBatch_le_refillBatch : s.initialBatch ≤ s.refillBatch :=
  Nat.le_mul_of_pos_left _ (by decide)

theorem visited_le_of_refill {number : Nat} {b : Batch} (h : s.refill v f number = (.ok (some b), f')) :
    b.visited ≤ s.refillBatch := by
  rw [refill] at h
  split at h
  · cases h
  · split at h
    · split at h
      · rename_i hb
        cases h
        exact Cursor.visited_le_of_collect hb
      · cases h
    · cases h

theorem costs_of_advance (h : (s.advance v f).outcome.left? = some s') : s.Costs s' := by
  rw [advance] at h
  split at h
  · split at h
    · cases h
      exact costs_of_work_eq rfl (Nat.add_zero _).symm (Nat.zero_le _)
    · rename_i b f' hb
      cases h
      have hvisited : b.visited ≤ s.initialBatch := Cursor.visited_le_of_collect hb
      exact costs_of_work_eq rfl rfl
        (Nat.le_trans hvisited (Nat.le_trans initialBatch_le_refillBatch (Nat.le_add_left _ _)))
  · split at h
    · cases h
    · rename_i next rest hbuffer
      have hcost : s.judgingCost ≤ fetchCost + s.refillBatch :=
        Nat.le_trans judgingCost_le (Nat.le_add_right _ _)
      simp only at h
      split at h
      · cases h
        exact costs_of_work_eq rfl rfl hcost
      · split at h
        · cases h
          exact costs_of_work_eq rfl rfl hcost
        · rename_i b f' hb
          cases h
          cases b with
          | none => exact costs_of_work_eq rfl rfl hcost
          | some b =>
            have hvisited : b.visited ≤ s.refillBatch := visited_le_of_refill hb
            exact costs_of_work_eq rfl (Nat.add_assoc _ _ _) (Nat.add_le_add judgingCost_le hvisited)

/-! ### One run -/

variable {r : Replay} {clock : Clock} {limit : UInt64} {t : Tally} {reports : List CorruptRow}

theorem lastCheck_of_onMatch {t' : Tally} {seq : Nat} {b : Bool}
    (h : (r.control clock limit).onMatch t seq = (t', b)) : t'.lastCheck = t.lastCheck := by
  simp only [Replay.control] at h
  split at h <;> cases h <;> rfl

theorem lastCheck_of_pause {t' : Tally} {work : Nat} {b : Bool} (ht : t.lastCheck ≤ work)
    (h : (r.control clock limit).pause t work = (t', b)) : t'.lastCheck ≤ work := by
  simp only [Replay.control] at h
  split at h
  · cases h
    exact Nat.le_refl _
  · cases h
    exact ht

/-- As long as a slice without time goes on, no look at the clock was due. -/
theorem work_le_of_pause {t' : Tally} {work : Nat}
    (h : (r.control .exhausted limit).pause t work = (t', false)) :
    work ≤ t.lastCheck + Replay.workPerCheck ∧ t'.lastCheck = t.lastCheck := by
  simp only [Replay.control] at h
  split at h
  · cases (Prod.mk.inj h).2
  · rename_i hdue
    cases h
    exact ⟨Nat.not_lt.1 hdue, rfl⟩

/-- The most that the work of a scan can come to before a slice without time pauses: what it is, or what is
done between two looks at the clock and in the step under way, and one unit more. -/
def reach (s : Scan) (t : Tally) : Nat :=
  max s.work (t.lastCheck + Replay.workPerCheck + fetchCost + s.refillBatch) + 1

/-- What a run keeps of the work: the batches stay as large as they are, the clock was last looked at when
part of the work had been done, and without time the run stays within reach. -/
structure Metered (clock : Clock) (s : Scan) (t : Tally) (run : Run Tally) : Prop where
  initialBatch_eq : run.scan.initialBatch = s.initialBatch
  lastCheck_le : run.state.lastCheck ≤ run.scan.work
  work_le : clock = .exhausted → run.scan.work ≤ s.reach t

theorem metered_stopped {outcome : Except ReadError Bool} (ht : t.lastCheck ≤ s.work) :
    s.Metered clock t ⟨s, outcome, t, f, reports⟩ :=
  ⟨rfl, ht, fun _ => Nat.le_succ_of_le (Nat.le_max_left _ _)⟩

/-- A run that is metered behind the first step is metered from the beginning. -/
theorem Metered.behind {t' t'' : Tally} {run : Run Tally} (h : s'.Metered clock t'' run)
    (hpause : (r.control clock limit).pause t (s.work + 1) = (t', false))
    (hcosts : ({ s with work := s.work + 1 } : Scan).Costs s') (htold : t''.lastCheck = t'.lastCheck) :
    s.Metered clock t run where
  initialBatch_eq := h.initialBatch_eq.trans hcosts.initialBatch_eq
  lastCheck_le := h.lastCheck_le
  work_le hclock := by
    subst hclock
    obtain ⟨hdue, hcheck⟩ := work_le_of_pause hpause
    have hrest := h.work_le rfl
    have hstep : s'.work ≤ s.work + 1 + fetchCost + s.refillBatch := hcosts.work_le
    have hbatch : s'.refillBatch = s.refillBatch := congrArg (refillFactor * ·) hcosts.initialBatch_eq
    rw [reach, hbatch, htold, hcheck] at hrest
    rw [reach]
    omega

/-- A step costs what steps cost, and after it the last look at the clock lies behind. -/
theorem costs_of_step {t' : Tally} {reading : Reading Advance} (ht : t.lastCheck ≤ s.work)
    (hpause : (r.control clock limit).pause t (s.work + 1) = (t', false))
    (hadv : ({ s with work := s.work + 1 } : Scan).advance v f = reading)
    (hleft : reading.outcome.left? = some s') :
    ({ s with work := s.work + 1 } : Scan).Costs s' ∧ t'.lastCheck ≤ s'.work := by
  rw [← hadv] at hleft
  have hcosts := costs_of_advance hleft
  exact ⟨hcosts, Nat.le_trans (lastCheck_of_pause (Nat.le_succ_of_le ht) hpause) hcosts.le_work⟩

/-- Whatever the clock says and whatever fails, a run keeps track of its work. -/
theorem metered_run (ht : t.lastCheck ≤ s.work) :
    s.Metered clock t (s.run (r.control clock limit) v f t reports) := by
  fun_induction Scan.run (r.control clock limit) v s f t reports with
  -- a run that pauses has just been charged the one unit more
  | case1 s f t reports s' t' hpause =>
    exact ⟨rfl, lastCheck_of_pause (Nat.le_succ_of_le ht) hpause,
      fun _ => Nat.succ_le_succ (Nat.le_max_left _ _)⟩
  | case2 s f t reports s' t' hpause =>
    exact ⟨rfl, lastCheck_of_pause (Nat.le_succ_of_le ht) hpause,
      fun _ => Nat.succ_le_succ (Nat.le_max_left _ _)⟩
  | case3 s f t reports s' t' hpause s'' e f' found hadv =>
    obtain ⟨hcosts, ht'⟩ := costs_of_step ht hpause hadv rfl
    exact (metered_stopped ht').behind hpause hcosts rfl
  | case4 s f t reports s' t' hpause s'' f' found hadv ih =>
    obtain ⟨hcosts, ht'⟩ := costs_of_step ht hpause hadv rfl
    exact (ih ht').behind hpause hcosts rfl
  | case5 s f t reports s' t' hpause s'' seq f' found t'' hmatch hadv =>
    obtain ⟨hcosts, ht'⟩ := costs_of_step ht hpause hadv rfl
    have hcheck := lastCheck_of_onMatch hmatch
    exact (metered_stopped (hcheck ▸ ht')).behind hpause hcosts hcheck
  | case6 s f t reports s' t' hpause s'' seq f' found t'' hmatch hadv ih =>
    obtain ⟨hcosts, ht'⟩ := costs_of_step ht hpause hadv rfl
    have hcheck := lastCheck_of_onMatch hmatch
    exact (ih (hcheck ▸ ht')).behind hpause hcosts hcheck
  | case7 s f t reports s' t' hpause s'' seq accepted f' found hadv hrejected ih =>
    obtain ⟨hcosts, ht'⟩ := costs_of_step ht hpause hadv rfl
    exact (ih ht').behind hpause hcosts rfl

end Scan

namespace Replay

variable {r : Replay} {v : View} {clock : Clock} {f : Faults} {log : List LogLine}

/-- The work that the scan of the current filter has done. -/
def scanWork (r : Replay) : Nat :=
  match r.scan with
  | some s => s.work
  | none => 0

/-- The work that a replay has done. -/
def spent (r : Replay) : Nat := r.totalWork + r.scanWork

/-- What a slice without time can spend on a filter: the work between two looks at the clock, the step
under way, and one unit more. -/
def allowance (authorKindCap : UInt64) (f : Filter) : Nat :=
  if f.limit = 0 then 0
  else workPerCheck + Scan.fetchCost + (Scan.ofFilter f authorKindCap).refillBatch + 1

/-- What slices keep true of the scan of the current filter: the clock was last looked at when part of its
work had been done, and its batches are those of a scan of the filter. -/
structure Metered (r : Replay) : Prop where
  lastCheck_le : r.tally.lastCheck ≤ r.scanWork
  initialBatch_eq : ∀ {s f}, r.scan = some s → r.filters[r.filterIndex]? = some f →
    s.initialBatch = (Scan.ofFilter f r.authorKindCap).initialBatch

theorem metered_start {follower : Follower} {cap : UInt64} {logScans : Bool} :
    (start follower cap logScans).Metered :=
  ⟨Nat.le_refl _, nofun⟩

theorem metered_finishFilter : r.finishFilter.Metered := ⟨Nat.zero_le _, nofun⟩

theorem spent_finishFilter : r.finishFilter.spent = r.spent := rfl

theorem work_current {filter : Filter} : (r.current filter).work = r.scanWork := by
  rw [current, scanWork]
  cases r.scan <;> rfl

section

variable {filter : Filter} {run : Scan.Run Tally}

theorem Metered.initialBatch_current (hr : r.Metered) (hget : r.filters[r.filterIndex]? = some filter) :
    (r.current filter).initialBatch = (Scan.ofFilter filter r.authorKindCap).initialBatch := by
  rw [current]
  cases hscan : r.scan with
  | none => rfl
  | some s => exact hr.initialBatch_eq hscan hget

theorem Metered.current (hr : r.Metered) :
    (r.current filter).Metered clock r.tally
      ((r.current filter).run (r.control clock filter.limit) v f r.tally []) :=
  Scan.metered_run (work_current ▸ hr.lastCheck_le)

theorem Metered.afterRun (hr : r.Metered) (hget : r.filters[r.filterIndex]? = some filter)
    (h : (r.current filter).Metered clock r.tally run) : (r.afterRun run).Metered := by
  refine ⟨h.lastCheck_le, fun {s g} hs hg => ?_⟩
  cases hs
  cases hget.symm.trans hg
  exact h.initialBatch_eq.trans (hr.initialBatch_current hget)

/-- Without time a slice spends at most the allowance of a filter on it. -/
theorem Metered.spent_le (hr : r.Metered) (hget : r.filters[r.filterIndex]? = some filter)
    (hlimit : filter.limit ≠ 0) (h : (r.current filter).Metered .exhausted r.tally run) :
    (r.afterRun run).spent ≤ r.spent + allowance r.authorKindCap filter := by
  have hreach := h.work_le rfl
  have hcheck := hr.lastCheck_le
  have hbatch : (r.current filter).refillBatch = (Scan.ofFilter filter r.authorKindCap).refillBatch :=
    congrArg (Scan.refillFactor * ·) (hr.initialBatch_current hget)
  rw [Scan.reach, work_current, hbatch] at hreach
  show r.totalWork + run.scan.work ≤ r.totalWork + r.scanWork + allowance r.authorKindCap filter
  rw [allowance, if_neg hlimit]
  omega

end

/-! ### Slices -/

theorem metered_process (hr : r.Metered) : (r.process v clock f log).replay.Metered := by
  fun_induction process r v clock f log with
  | case1 => exact hr
  | case2 r f log filter hget hlimit ih => exact ih metered_finishFilter
  | case3 r f log filter hget hlimit scan run log' e hrun => exact hr.afterRun hget hr.current
  | case4 r f log filter hget hlimit scan run log' hrun =>
    have hafter : (r.afterRun run).Metered := hr.afterRun hget hr.current
    exact ⟨hafter.lastCheck_le, hafter.initialBatch_eq⟩
  | case5 r f log filter hget hlimit scan run log' hrun ih => exact ih metered_finishFilter

theorem metered_visited (hr : r.Metered) (visits : List Visit) : (r.visited visits).replay.Metered := by
  induction visits generalizing r with
  | nil => exact hr
  | cons x rest ih =>
    rw [visited]
    split
    · exact metered_process hr
    · exact ih (metered_process hr)

theorem filterIndex_le_process : r.filterIndex ≤ (r.process v clock f log).replay.filterIndex := by
  fun_induction process r v clock f log with
  | case1 | case3 | case4 => exact Nat.le_refl _
  | case2 r f log filter hget hlimit ih => exact Nat.le_of_succ_le ih
  | case5 r f log filter hget hlimit scan run log' hrun ih => exact Nat.le_of_succ_le ih

/-- The allowances of the filters from the current one up to another. -/
def allowances (r : Replay) (upTo : Nat) : Nat :=
  (((r.filters.drop r.filterIndex).take (upTo + 1 - r.filterIndex)).map (allowance r.authorKindCap)).sum

theorem drop_of_get {α : Type} {l : List α} {i : Nat} {a : α} (h : l[i]? = some a) :
    l.drop i = a :: l.drop (i + 1) := by
  obtain ⟨hlt, rfl⟩ := List.getElem?_eq_some_iff.1 h
  exact List.drop_eq_getElem_cons hlt

theorem allowances_of_lt {filter : Filter} (hget : r.filters[r.filterIndex]? = some filter) {upTo : Nat}
    (h : r.filterIndex < upTo) :
    r.allowances upTo = allowance r.authorKindCap filter + r.finishFilter.allowances upTo := by
  have hcount : upTo + 1 - r.filterIndex = upTo + 1 - r.finishFilter.filterIndex + 1 := by
    show upTo + 1 - r.filterIndex = upTo + 1 - (r.filterIndex + 1) + 1
    omega
  rw [allowances, drop_of_get hget, hcount, List.take_succ_cons, List.map_cons, List.sum_cons]
  rfl

theorem allowances_self {filter : Filter} (hget : r.filters[r.filterIndex]? = some filter) :
    r.allowances r.filterIndex = allowance r.authorKindCap filter := by
  rw [allowances, drop_of_get hget, Nat.add_sub_cancel_left, List.take_succ_cons, List.take_zero,
    List.map_singleton, List.sum_singleton]

/-- A slice that ends in the scan of the current filter spends its allowance at most. -/
theorem Metered.spent_afterRun_le {filter : Filter} {run : Scan.Run Tally} (hr : r.Metered)
    (hget : r.filters[r.filterIndex]? = some filter) (hlimit : filter.limit ≠ 0)
    (h : (r.current filter).Metered .exhausted r.tally run) :
    (r.afterRun run).spent ≤ r.spent + r.allowances r.filterIndex := by
  rw [allowances_self hget]
  exact hr.spent_le hget hlimit h

/-- What is spent on a filter that is completed and on those behind it. -/
theorem spent_le_of_finished {filter : Filter} {next after : Replay}
    (hget : r.filters[r.filterIndex]? = some filter)
    (hspent : next.spent ≤ r.spent + allowance r.authorKindCap filter)
    (hindex : next.filterIndex = r.filterIndex + 1)
    (hallowances : next.allowances = r.finishFilter.allowances) (hle : next.filterIndex ≤ after.filterIndex)
    (h : after.spent ≤ next.spent + next.allowances after.filterIndex) :
    after.spent ≤ r.spent + r.allowances after.filterIndex := by
  have hlt : r.filterIndex < after.filterIndex := by
    rw [hindex] at hle
    exact hle
  rw [hallowances] at h
  rw [allowances_of_lt hget hlt]
  omega

/-- Without time a slice spends at most the allowances of the filters that it comes to. -/
theorem spent_process_le (hr : r.Metered) :
    (r.process v .exhausted f log).replay.spent
      ≤ r.spent + r.allowances (r.process v .exhausted f log).replay.filterIndex := by
  fun_induction process r v .exhausted f log with
  | case1 => exact Nat.le_add_right _ _
  | case2 r f log filter hget hlimit ih =>
    -- a filter that asks for no events costs nothing
    have hspent : r.finishFilter.spent ≤ r.spent + allowance r.authorKindCap filter := by
      rw [spent_finishFilter]
      exact Nat.le_add_right _ _
    exact spent_le_of_finished hget hspent rfl rfl filterIndex_le_process (ih metered_finishFilter)
  | case3 r f log filter hget hlimit scan run log' e hrun =>
    exact hr.spent_afterRun_le hget hlimit hr.current
  | case4 r f log filter hget hlimit scan run log' hrun =>
    exact hr.spent_afterRun_le hget hlimit hr.current
  | case5 r f log filter hget hlimit scan run log' hrun ih =>
    have hspent : (r.afterRun run).finishFilter.spent ≤ r.spent + allowance r.authorKindCap filter := by
      rw [spent_finishFilter]
      exact hr.spent_le hget hlimit hr.current
    exact spent_le_of_finished hget hspent rfl rfl filterIndex_le_process (ih metered_finishFilter)

end Replay

/-! ### Empty stores -/

theorem Cursor.collect_empty {c : Cursor} {k : IndexKind} {since : UInt64} {number limit : Nat} :
    c.collect .empty .none k since number limit = (.ok ⟨[], none, 0⟩, .none) := by
  have hahead : c.ahead .empty k = [] := by
    apply List.eq_nil_iff_forall_not_mem.2
    intro e he
    exact View.not_mem_empty (mem_get_of_mem_ahead he)
  rw [collect, hahead]
  split
  · cases limit <;> rfl
  · rfl

namespace Scan

section

variable {σ : Type} {control : Control σ} {s s' : Scan} {v : View} {f f' : Faults} {a a' : σ}
  {reports found : List CorruptRow}

theorem run_of_finished (hpause : control.pause a (s.work + 1) = (a', false))
    (hadv : ({ s with work := s.work + 1 } : Scan).advance v f = ⟨.finished, f', found⟩) :
    s.run control v f a reports = ⟨{ s with work := s.work + 1 }, .ok true, a', f', reports ++ found⟩ := by
  rw [run_eq_carryOn hpause, hadv]
  rfl

theorem run_of_seeded (hpause : control.pause a (s.work + 1) = (a', false))
    (hadv : ({ s with work := s.work + 1 } : Scan).advance v f = ⟨.seeded s', f', found⟩) :
    s.run control v f a reports = s'.run control v f' a' (reports ++ found) := by
  rw [run_eq_carryOn hpause, hadv]
  rfl

end

section

variable {s : Scan} {r : Replay} {clock : Clock} {limit : UInt64} {t : Tally} {reports : List CorruptRow}

theorem advance_empty_of_some {c : Cursor} (hc : s.cursors[s.seeded]? = some c) :
    s.advance .empty .none = ⟨.seeded (s.seed c ⟨[], none, 0⟩), .none, []⟩ := by
  rw [advance, hc]
  simp only [Cursor.collect_empty]

theorem advance_empty_of_none (hc : s.cursors[s.seeded]? = none) (hbuffer : s.buffer = []) :
    s.advance .empty .none = ⟨.finished, .none, []⟩ := by
  rw [advance, hc, hbuffer]

theorem buffer_seed_nothing {c : Cursor} (hbuffer : s.buffer = []) :
    (s.seed c ⟨[], none, 0⟩).buffer = [] := by
  rw [seed, hbuffer]
  split
  · exact List.mergeSort_nil
  · rfl

theorem pause_of_le {work : Nat} (h : work ≤ t.lastCheck + Replay.workPerCheck) :
    (r.control clock limit).pause t work = (t, false) :=
  if_neg (Nat.not_lt.2 h)

/-- In an empty store a scan costs one unit for each cursor and one more, and no look at the clock is due
unless that is more than the work between two looks. -/
theorem run_empty {left : Nat} (hleft : s.seeded + left = s.cursors.length) (hbuffer : s.buffer = [])
    (hcheck : s.work + left + 1 ≤ t.lastCheck + Replay.workPerCheck) :
    ∃ s' : Scan, s.run (r.control clock limit) .empty .none t reports = ⟨s', .ok true, t, .none, reports⟩
      ∧ s'.work = s.work + left + 1 := by
  induction left generalizing s with
  | zero =>
    have hnone : s.cursors[s.seeded]? = none := List.getElem?_eq_none_iff.2 (Nat.le_of_eq hleft.symm)
    refine ⟨{ s with work := s.work + 1 }, ?_, rfl⟩
    rw [run_of_finished (pause_of_le hcheck) (advance_empty_of_none hnone hbuffer), List.append_nil]
  | succ left ih =>
    have hlt : s.seeded < s.cursors.length := by omega
    obtain ⟨c, hc⟩ : ∃ c, s.cursors[s.seeded]? = some c := ⟨_, List.getElem?_eq_getElem hlt⟩
    have hpause : (r.control clock limit).pause t (s.work + 1) = (t, false) := pause_of_le (by omega)
    have hempty : (({ s with work := s.work + 1 } : Scan).seed c ⟨[], none, 0⟩).buffer = [] :=
      buffer_seed_nothing hbuffer
    have hlength : s.seeded + 1 + left = (s.cursors.set s.seeded (c.absorb ⟨[], none, 0⟩)).length := by
      rw [List.length_set, ← hleft, Nat.add_assoc, Nat.add_comm 1]
    have hrest : s.work + 1 + 0 + left + 1 ≤ t.lastCheck + Replay.workPerCheck := by omega
    obtain ⟨s', hs', hwork⟩ := ih (s := ({ s with work := s.work + 1 } : Scan).seed c ⟨[], none, 0⟩)
      hlength hempty hrest
    have hwork : s'.work = s.work + 1 + 0 + left + 1 := hwork
    rw [run_of_seeded hpause (advance_empty_of_some hc), List.append_nil]
    exact ⟨s', hs', by omega⟩

theorem run_ofFilter_empty {g : Filter} {cap : UInt64} (ht : t.lastCheck = 0)
    (hstems : (Plan.ofFilter g cap).stems.length < Replay.workPerCheck) :
    ∃ s' : Scan, (ofFilter g cap).run (r.control clock limit) .empty .none t reports
        = ⟨s', .ok true, t, .none, reports⟩ ∧ s'.work = (Plan.ofFilter g cap).stems.length + 1 := by
  have hlength : (ofFilter g cap).seeded + (Plan.ofFilter g cap).stems.length
      = (ofFilter g cap).cursors.length := by
    show 0 + _ = (List.map _ _).length
    rw [List.length_map, Nat.zero_add]
  have hcheck : (ofFilter g cap).work + (Plan.ofFilter g cap).stems.length + 1
      ≤ t.lastCheck + Replay.workPerCheck := by
    show 0 + _ + 1 ≤ _
    rw [ht]
    omega
  obtain ⟨s', hrun, hwork⟩ := run_empty hlength rfl hcheck
  refine ⟨s', hrun, hwork.trans ?_⟩
  show 0 + _ + 1 = _
  rw [Nat.zero_add]

end

end Scan

namespace Replay

variable {r : Replay} {clock : Clock} {f : Faults} {log : List LogLine}

theorem run_current_empty {filter : Filter} (hscan : r.scan = none) (hcheck : r.tally.lastCheck = 0)
    (hf : f = .none) (hget : r.filters[r.filterIndex]? = some filter)
    (hfilters : ∀ g ∈ r.filters.drop r.filterIndex,
      g.limit ≠ 0 ∧ (Plan.ofFilter g r.authorKindCap).stems.length < workPerCheck) :
    ∃ s' : Scan, (r.current filter).run (r.control clock filter.limit) .empty f r.tally []
        = ⟨s', .ok true, r.tally, .none, []⟩
      ∧ s'.work = (Plan.ofFilter filter r.authorKindCap).stems.length + 1 := by
  rw [drop_of_get hget] at hfilters
  rw [current, hscan, hf]
  exact Scan.run_ofFilter_empty hcheck (hfilters filter List.mem_cons_self).2

/-- In an empty store a slice completes all filters without a look at the clock, if each has fewer stems than
there is work between two looks: it spends a unit on each stem and one more on each filter. -/
theorem spent_empty (hscan : r.scan = none) (hcheck : r.tally.lastCheck = 0) (hf : f = .none)
    (hfilters : ∀ g ∈ r.filters.drop r.filterIndex,
      g.limit ≠ 0 ∧ (Plan.ofFilter g r.authorKindCap).stems.length < workPerCheck) :
    (r.process .empty clock f log).replay.spent = r.spent
      + ((r.filters.drop r.filterIndex).map fun g => (Plan.ofFilter g r.authorKindCap).stems.length + 1).sum := by
  fun_induction process r .empty clock f log with
  | case1 r f log hget =>
    rw [List.drop_eq_nil_of_le (List.getElem?_eq_none_iff.1 hget)]
    rfl
  | case2 r f log filter hget hlimit ih =>
    rw [drop_of_get hget] at hfilters
    exact absurd hlimit (hfilters filter List.mem_cons_self).1
  | case3 r f log filter hget hlimit scan run log' e hrun =>
    obtain ⟨s', hempty, -⟩ := run_current_empty hscan hcheck hf hget hfilters
    cases hrun.symm.trans (congrArg Scan.Run.outcome hempty)
  | case4 r f log filter hget hlimit scan run log' hrun =>
    obtain ⟨s', hempty, -⟩ := run_current_empty hscan hcheck hf hget hfilters
    cases hrun.symm.trans (congrArg Scan.Run.outcome hempty)
  | case5 r f log filter hget hlimit scan run log' hrun ih =>
    obtain ⟨s', hempty, hwork⟩ := run_current_empty hscan hcheck hf hget hfilters
    rw [drop_of_get hget] at hfilters ⊢
    have hrest := ih rfl rfl (congrArg Scan.Run.faults hempty) (List.forall_mem_cons.1 hfilters).2
    have hscanWork : run.scan.work = (Plan.ofFilter filter r.authorKindCap).stems.length + 1 := by
      rw [← hwork]
      exact congrArg (fun x => x.scan.work) hempty
    have hspent : (r.afterRun run).finishFilter.spent
        = r.spent + ((Plan.ofFilter filter r.authorKindCap).stems.length + 1) := by
      have hnone : r.scanWork = 0 := by rw [scanWork, hscan]
      show r.totalWork + run.scan.work = r.totalWork + r.scanWork + _
      rw [hscanWork, hnone, Nat.add_zero r.totalWork]
    rw [List.map_cons, List.sum_cons, ← Nat.add_assoc, ← hspent]
    exact hrest

/-! ### Slices without time -/

/-- Whatever slices a replay has been given: a slice without time spends at most the work between two looks
at the clock, the step under way and one unit more on each of the filters that it comes to. -/
theorem spent_exhausted (follower : Follower) (cap : UInt64) (logScans : Bool) (visits : List Visit) (v : View)
    (f : Faults) (log : List LogLine) :
    let r := ((start follower cap logScans).visited visits).replay
    let r' := (r.process v .exhausted f log).replay
    r'.spent ≤ r.spent + r.allowances r'.filterIndex :=
  spent_process_le (metered_visited metered_start visits)

/-- Somebody asks for events of a great many kinds. -/
def manyKinds : Filter :=
  { Filter.unrestricted with
    kinds := some (.ofList ((List.range 1300).map UInt64.ofNat))
    indexOnly := true }

theorem fromJson_manyKinds : manyKinds.FromJson :=
  ⟨Filter.unbounded, .object [("kinds", .array ((List.range 1300).map .ofNat))], by decide +kernel⟩

/-- The replay of two such filters. -/
def manyAsked : Replay := start ⟨⟨asker, ⟨[manyKinds, manyKinds]⟩⟩, 0⟩ 20 false

/-- On an empty store it costs 1301 units for each filter, and no look at the clock is due. -/
theorem spent_manyAsked : (manyAsked.process .empty .exhausted .none []).replay.spent = 2602 := by
  have hstems : (Plan.ofFilter manyKinds 20).stems.length = 1300 := by decide +kernel
  have hfilters : ∀ g ∈ manyAsked.filters.drop manyAsked.filterIndex,
      g.limit ≠ 0 ∧ (Plan.ofFilter g manyAsked.authorKindCap).stems.length < workPerCheck := by
    intro g hg
    have hg : g ∈ [manyKinds, manyKinds] := hg
    obtain rfl : g = manyKinds := by simpa using hg
    exact ⟨by decide, hstems ▸ by decide⟩
  have hdrop : manyAsked.filters.drop manyAsked.filterIndex = [manyKinds, manyKinds] := rfl
  have hcap : manyAsked.authorKindCap = 20 := rfl
  have hstart : manyAsked.spent = 0 := rfl
  rw [spent_empty rfl rfl rfl hfilters, hdrop, hcap, hstart]
  simp [hstems]

/-- A slice without time may spend more than the work between two looks at the clock and one step together,
on filters that it completes. -/
theorem not_forall_spent :
    ¬ ∀ (group : FilterGroup) (who : Recipient) (watermark : Nat) (cap : UInt64) (logScans : Bool)
        (visits : List Visit) (v : View) (f : Faults) (log : List LogLine),
      (∀ g ∈ group.filters, g.FromJson) →
      let r := ((start ⟨⟨who, group⟩, watermark⟩ cap logScans).visited visits).replay
      (r.process v .exhausted f log).replay.spent ≤ r.spent + (workPerCheck
        + (1 + Scan.fetchCost + Scan.refillFactor * Scan.maxInitialBatch + 1) + 1) := by
  intro h
  have hjson : ∀ g ∈ [manyKinds, manyKinds], g.FromJson := by simp [fromJson_manyKinds]
  have hbound : (manyAsked.process .empty .exhausted .none []).replay.spent ≤ _ :=
    h ⟨[manyKinds, manyKinds]⟩ asker 0 20 false [] .empty .none [] hjson
  rw [spent_manyAsked] at hbound
  exact absurd hbound (by decide)

end Replay

end EventRelay
