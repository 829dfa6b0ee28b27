import EventRelay.Proofs.Scan.Resumption
/-!
# Resuming a replay

A replay is given slices until one is complete, each against a view of its own; between them its time has
been used up, or a read has failed.  Where all the views look the same to it, the slices together deliver
what one slice delivers whose time is not used up and whose reads do not fail: both deliver the outlook of
the replay.

Main statements: `resumes_of_alike`, and `resumes` for scans and replays against a view that does not change.
-/

namespace EventRelay

namespace Replay

/-! ### Slices -/

/-- What a slice meets: a view, a clock, and reads that may fail. -/
structure Visit where
  view : View
  clock : Clock
  faults : Faults

/-- A slice whose time is not used up and whose reads do not fail. -/
def Visit.undisturbed (v : View) : Visit := ⟨v, .unlimited, .none⟩

/-- What slices come to that are given to a replay until one is complete. -/
structure Visited extends Repeated where
  replay : Replay
  log : List LogLine

/-- Gives a replay one slice after the other until one is complete. -/
def visited (r : Replay) : List Visit → Visited
  | [] => ⟨⟨[], false⟩, r, []⟩
  | x :: rest =>
    let slice := r.process x.view x.clock x.faults []
    match slice.outcome with
    | .ok true => ⟨⟨r.deliveredSince slice.replay, true⟩, slice.replay, slice.log⟩
    | _ =>
      let later := slice.replay.visited rest
      ⟨⟨r.deliveredSince slice.replay ++ later.passed, later.complete⟩, later.replay,
        slice.log ++ later.log⟩

variable {r : Replay} {x : Visit} {rest : List Visit}

theorem visited_of_complete (h : (r.process x.view x.clock x.faults []).outcome = .ok true) :
    r.visited (x :: rest) =
      let slice := r.process x.view x.clock x.faults []
      ⟨⟨r.deliveredSince slice.replay, true⟩, slice.replay, slice.log⟩ := by
  rw [visited]
  split
  · rfl
  · rename_i hnot
    exact absurd h hnot

theorem visited_of_incomplete (h : (r.process x.view x.clock x.faults []).outcome ≠ .ok true) :
    r.visited (x :: rest) =
      let slice := r.process x.view x.clock x.faults []
      let later := slice.replay.visited rest
      ⟨⟨r.deliveredSince slice.replay ++ later.passed, later.complete⟩, later.replay,
        slice.log ++ later.log⟩ := by
  rw [visited]
  split
  · rename_i hend
    exact absurd hend h
  · rfl

/-! ### The outlook from slice to slice -/

/-- Whether two views look the same to the replays of a follower, however far they have come. -/
def Alike (follower : Follower) (v v' : View) : Prop :=
  ∀ r : Replay, r.Sound → r.follower = follower → r.outlook v' = r.outlook v

theorem alike_self {follower : Follower} {v : View} : Alike follower v v := fun _ _ _ => rfl

/-- What has been delivered is the beginning of the outlook. -/
theorem Sound.delivered_prefix_outlook (hr : r.Sound) {v : View} : r.delivered <+: r.outlook v := by
  have hnodup : r.delivered.Nodup := List.nodup_reverse.2 hr.tally.nodup_sent
  cases hget : r.filters[r.filterIndex]? with
  | none => exact (outlook_of_none hget).symm ▸ List.prefix_refl _
  | some f =>
    rw [outlook_of_get hget, eraseDups_append_eq, eraseDups_of_nodup hnodup]
    exact List.prefix_append _ _

/-- Slices deliver a beginning of the outlook, and all of it once one is complete. -/
theorem Sound.visited_spec (hr : r.Sound) {v : View} {visits : List Visit}
    (hv : ∀ x ∈ visits, Alike r.follower v x.view) :
    r.delivered ++ (r.visited visits).passed <+: r.outlook v
      ∧ ((r.visited visits).complete = true →
        r.delivered ++ (r.visited visits).passed = r.outlook v) := by
  induction visits generalizing r with
  | nil =>
    have hnone : (r.visited []).passed = [] := rfl
    rw [hnone, List.append_nil]
    exact ⟨hr.delivered_prefix_outlook, fun h => by cases h⟩
  | cons x rest ih =>
    have hserved : Served x.view r (r.process x.view x.clock x.faults []) := served hr
    have hfirst : r.outlook x.view = r.outlook v := hv x List.mem_cons_self r hr rfl
    by_cases hend : (r.process x.view x.clock x.faults []).outcome = .ok true
    · rw [visited_of_complete hend]
      simp only
      rw [← hserved.delivered_append, hserved.delivered_eq hend, hfirst]
      exact ⟨List.prefix_refl _, fun _ => rfl⟩
    · rw [visited_of_incomplete hend]
      simp only
      rw [← List.append_assoc, ← hserved.delivered_append]
      -- the slice has not changed the outlook, in its own view and so in the first
      have hsame : (r.process x.view x.clock x.faults []).replay.outlook v = r.outlook v := by
        rw [← hv x List.mem_cons_self _ hserved.sound hserved.follower_eq, hserved.outlook_eq, hfirst]
      rw [← hsame]
      refine ih hserved.sound fun y hy => ?_
      rw [hserved.follower_eq]
      exact hv y (List.mem_cons_of_mem _ hy)

/-- A slice that is not disturbed completes a replay. -/
theorem outcome_unlimited {v : View} : (r.process v .unlimited .none []).outcome = .ok true := by
  cases hend : (r.process v .unlimited .none []).outcome with
  | error e => exact absurd hend (process_none rfl e)
  | ok b =>
    cases b with
    | true => rfl
    | false => exact absurd hend process_unlimited

theorem complete_undisturbed {v : View} : (r.visited [.undisturbed v]).complete = true := by
  have hvisited : r.visited [.undisturbed v] = _ := visited_of_complete outcome_unlimited
  rw [hvisited]

/-- A replay that meets views which look the same to it can be resumed. -/
theorem resumes_of_alike {follower : Follower} {v : View} {visits : List Visit}
    (hv : ∀ x ∈ visits, Alike follower v x.view) (cap : UInt64) (logScans : Bool) :
    ((start follower cap logScans).visited visits).Resumes
      ((start follower cap logScans).visited [.undisturbed v]).toRepeated := by
  have hr : (start follower cap logScans).Sound := sound_start
  have hself : ∀ x ∈ [Visit.undisturbed v], Alike follower v x.view := by
    intro x hx
    rw [List.mem_singleton.1 hx]
    exact alike_self
  -- nothing has been delivered at the start
  have hwhole : ((start follower cap logScans).visited [.undisturbed v]).passed
      = (start follower cap logScans).outlook v :=
    (hr.visited_spec hself).2 complete_undisturbed
  obtain ⟨hbegins, heq⟩ := hr.visited_spec hv
  refine ⟨complete_undisturbed, ?_, ?_⟩
  · rw [hwhole]
    exact hbegins
  · rw [hwhole]
    exact heq

/-- Gives a replay slices against one view. -/
def repeated (r : Replay) (v : View) (slices : List (Clock × Faults)) : Repeated :=
  (r.visited (slices.map fun x => ⟨v, x.1, x.2⟩)).toRepeated

/-- Scans and replays can be resumed.  Against a view that does not change, what the calls of a scan pass
on until one returns true is what a single call passes on that neither pauses nor fails; and what the
slices of a replay deliver until one returns true is what a single slice delivers that neither pauses nor
fails.  Until then it is a beginning of that. -/
theorem resumes (v : View) :
    (∀ (f : Filter) (cap : UInt64) (ends : List Nat → Bool) (attempts : List Scan.Attempt),
      ((Scan.ofFilter f cap).repeated ends v [] attempts).Resumes
        ((Scan.ofFilter f cap).repeated ends v [] [.undisturbed]))
    ∧ ∀ (follower : Follower) (cap : UInt64) (logScans : Bool) (slices : List (Clock × Faults)),
      ((start follower cap logScans).repeated v slices).Resumes
        ((start follower cap logScans).repeated v [(.unlimited, .none)]) := by
  refine ⟨fun f cap ends attempts => Scan.resumed_repeated f cap v ends attempts, ?_⟩
  intro follower cap logScans slices
  refine resumes_of_alike (fun x hx => ?_) cap logScans
  obtain ⟨slice, -, rfl⟩ := List.mem_map.1 hx
  exact alike_self

end Replay

end EventRelay
