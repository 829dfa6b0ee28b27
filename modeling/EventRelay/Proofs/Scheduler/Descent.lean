import EventRelay.Proofs.Replay.Descent
import EventRelay.Proofs.Scheduler.Books
/-!
# The descent of a scheduler

While no read fails, a turn takes the replay at the head of the queue off it, or takes that replay down,
and does nothing to the others.  So the replays that wait descend together, whatever views the turns are
against, until none is left.

Main statement: `Tidy.rank_process_lt`.
-/

namespace EventRelay

namespace Scheduler

/-- How far the replay of a number has still to go. -/
def rankOf (s : Scheduler) (id : Nat) : Replay.Rank :=
  ((s.replays.get? id).map Replay.rank).getD 0

/-- How far the replays that wait have still to go, and how many there are. -/
def rank (s : Scheduler) : Replay.Rank ×ₗ ℕ :=
  toLex ((s.ready.map s.rankOf).sum, s.ready.length)

variable {s : Scheduler} {id : Nat} {rest : List Nat}

/-- A turn whose reads do not fail plans no failures. -/
theorem faults_process (s : Scheduler) (v : View) (clock : Clock) :
    (s.process v clock .none).faults = .none := by
  have hturn := turns s v clock .none
  generalize s.process v clock .none = turn at hturn ⊢
  cases hturn with
  | idle => rfl
  | absent => rfl
  | dropped => rfl
  | waits _ _ _ hslice => exact hslice ▸ Replay.faults_process rfl
  | completes _ _ _ hslice => exact hslice ▸ Replay.faults_process rfl

/-- While no read fails, the head of the queue leaves it, or goes down and to the back. -/
theorem Tidy.ready_process (hs : s.Tidy) (hready : s.ready = id :: rest) (v : View) (clock : Clock) :
    (s.process v clock .none).scheduler.ready = rest
      ∨ (s.process v clock .none).scheduler.ready = rest ++ [id]
        ∧ (s.process v clock .none).scheduler.rankOf id < s.rankOf id := by
  have hturn := turns s v clock .none
  generalize s.process v clock .none = turn at hturn ⊢
  cases hturn with
  | idle hready' => cases hready.symm.trans hready'
  | absent hready' =>
    cases hready.symm.trans hready'
    exact .inl rfl
  | dropped hready' =>
    cases hready.symm.trans hready'
    exact .inl rfl
  | completes hready' =>
    cases hready.symm.trans hready'
    exact .inl ready_remove
  | @waits _ _ r slice _ _ hready' hr hdead hslice hout =>
    cases hready.symm.trans hready'
    refine .inr ⟨rfl, ?_⟩
    have hpaused : slice.outcome = .ok false := by
      cases h : slice.outcome with
      | error e => exact absurd (hslice ▸ h) (Replay.process_none rfl e)
      | ok b =>
        cases b with
        | false => rfl
        | true => exact absurd h hout
    have hlt := (hs.wf.sound hr).rank_lt_of_paused (hslice ▸ hpaused)
    rw [← hslice] at hlt
    rw [rankOf, rankOf, hr, KeyMap.get?_insert, if_pos rfl]
    exact hlt

/-- While no read fails, every turn takes the scheduler down. -/
theorem Tidy.rank_process_lt (hs : s.Tidy) (hready : s.ready ≠ []) (v : View) (clock : Clock) :
    (s.process v clock .none).scheduler.rank < s.rank := by
  obtain ⟨id, rest, hready⟩ := List.exists_cons_of_ne_nil hready
  have hid : id ∉ rest := (List.nodup_cons.1 (hready ▸ hs.nodup)).1
  -- those behind the head are as they were
  have hothers : rest.map (s.process v clock .none).scheduler.rankOf = rest.map s.rankOf := by
    refine List.map_congr_left fun n hn => ?_
    rw [rankOf, rankOf, hs.get?_process_of_ne]
    rw [hready]
    rintro ⟨⟩
    exact hid hn
  have hrank : s.rank = toLex (s.rankOf id + (rest.map s.rankOf).sum, rest.length + 1) := by
    rw [rank, hready, List.map_cons, List.sum_cons, List.length_cons]
  have hnonneg : 0 ≤ s.rankOf id := @bot_le Replay.Rank _ _ _
  rw [hrank, rank]
  rcases hs.ready_process hready v clock with hgone | ⟨hback, hlt⟩
  · rw [hgone, hothers]
    exact Prod.Lex.toLex_lt_toLex'.2 ⟨le_add_of_nonneg_left hnonneg, fun _ => Nat.lt_succ_self _⟩
  · rw [hback, List.map_append, List.sum_append, hothers, List.map_singleton, List.sum_singleton,
      add_comm]
    exact Prod.Lex.toLex_lt_toLex.2 (.inl (add_lt_add_left hlt _))

end Scheduler

end EventRelay
