import EventRelay.Proofs.Scan.Steady
/-!
# Stores that change

Between two looks at a store events may be stored and deleted.  A seq is given out once, so an event that
is stored never takes the place of another, and the last seq given out never goes down.

Main statements: `Change.built`, `Change.latestSeq_le` and `Change.agree` (what lies below the new seqs stays
as it is where nothing is deleted).
-/

namespace EventRelay

namespace Store

/-- How a store may come to change: by events, admitted together with the seqs they get, and, if `deletes`,
by deletions. -/
inductive Change (admits : Nat → Event → Prop) (deletes : Bool) : Store → Store → Prop
  | refl {s} : Change admits deletes s s
  | insert {s t u e text seq} : Change admits deletes s t → admits (t.view.latestSeq + 1) e →
      t.insertWithText e text = .ok (seq, u) → Change admits deletes s u
  | delete {s t u seq} : Change admits deletes s t → deletes = true → t.delete? seq = some u →
      Change admits deletes s u

/-- The views of a store at the times that it is looked at, the first one now. -/
inductive Snapshots (admits : Nat → Event → Prop) (deletes : Bool) : Store → List View → Prop
  | last {s} : Snapshots admits deletes s [s.view]
  | next {s t vs} : Change admits deletes s t → Snapshots admits deletes t vs →
      Snapshots admits deletes s (s.view :: vs)

variable {admits : Nat → Event → Prop} {stored : Event → Prop} {deletes : Bool} {s t : Store}
  {v : View} {vs : List View}

theorem Change.built (h : s.Change admits deletes t) (hs : s.Built stored)
    (himp : ∀ seq e, admits seq e → stored e) : t.Built stored := by
  induction h with
  | refl => exact hs
  | insert _ hadmits hins ih => exact ih.insert (himp _ _ hadmits) hins
  | delete _ _ hdel ih => exact ih.delete hdel

theorem Change.latestSeq_le (h : s.Change admits deletes t) (hs : s.Built stored)
    (himp : ∀ seq e, admits seq e → stored e) : s.view.latestSeq ≤ t.view.latestSeq := by
  induction h with
  | refl => exact Nat.le_refl _
  | insert _ _ hins ih =>
    rcases view_insertWithText hins with hview | hview
    · rw [hview]
      exact ih
    · rw [hview]
      exact Nat.le_succ_of_le ih
  | delete hbefore _ hdel ih =>
    rw [view_delete? (hbefore.built hs himp).view.mirrors hdel]
    exact ih

/-- Below the seqs that are given out nothing changes but by deletions. -/
theorem Change.agree (h : s.Change admits false t) {w : Nat}
    (habove : ∀ seq e, admits seq e → w < seq) : s.view.Agree t.view w := by
  induction h with
  | refl => exact .rfl
  | insert _ hadmits hins ih =>
    rcases view_insertWithText hins with hview | hview
    · rw [hview]
      exact ih
    · rw [hview]
      exact ih.trans (View.agree_insert (Nat.le_of_lt_succ (habove _ _ hadmits)))
  | delete _ hdeletes => cases hdeletes

theorem Snapshots.built (h : s.Snapshots admits deletes vs) (hs : s.Built stored)
    (himp : ∀ seq e, admits seq e → stored e) (hv : v ∈ vs) : v.Built stored := by
  induction h with
  | last =>
    rw [List.mem_singleton.1 hv]
    exact hs.view
  | next hchange _ ih =>
    rcases List.mem_cons.1 hv with rfl | hv
    · exact hs.view
    · exact ih (hchange.built hs himp) hv

theorem Snapshots.agree (h : s.Snapshots admits false vs) {w : Nat}
    (habove : ∀ seq e, admits seq e → w < seq) (hv : v ∈ vs) : s.view.Agree v w := by
  induction h with
  | last =>
    rw [List.mem_singleton.1 hv]
    exact .rfl
  | next hchange _ ih =>
    rcases List.mem_cons.1 hv with rfl | hv
    · exact .rfl
    · exact (hchange.agree habove).trans (ih hv)

end Store

end EventRelay
