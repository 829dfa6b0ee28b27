import EventRelay.Proofs.Scheduler.Serving
import EventRelay.Proofs.Store.Between
import EventRelay.Worker
/-!
# Pieces of work

What the pieces of a step come to, whatever else holds of the worker: a walk over new events passes a
beginning of them, a turn sends what a replay has delivered, and catching a subscription up gives it the
events up to the position of the monitors, as far as they can be read.

Main statements: `walk_cases`, `eventsAfter_lastSeq` and `caughtUp`.
-/

namespace EventRelay

namespace Worker

variable {v : View} {n b seq : Nat} {e : Event} {follower : Follower} {who : Recipient}

/-! ### Walks -/

/-- A walk passes a beginning of its items, and all of them if it does not fail. -/
theorem walk_cases {α : Type} (f : Faults) (m : ReadMethod) (l : List α) :
    ∃ passed more, l = passed ++ more ∧ (f.walk m l).1 = passed
      ∧ ((f.walk m l).2.1 = none → more = []) := by
  rw [Faults.walk]
  cases f.call m with
  | mk outcome f' =>
    cases outcome with
    | none => exact ⟨l, [], (List.append_nil l).symm, rfl, fun _ => rfl⟩
    | some fault =>
      exact ⟨l.take fault.visits, l.drop fault.visits, (List.take_append_drop _ _).symm, rfl, nofun⟩

theorem lastSeq_cons {l : List (Nat × Event)} : lastSeq n ((seq, e) :: l) = lastSeq seq l := by
  cases l with
  | nil => rfl
  | cons x rest =>
    rw [lastSeq, lastSeq, List.getLast?_cons_cons]
    cases h : (x :: rest).getLast? with
    | none => cases List.getLast?_eq_none_iff.1 h
    | some y => rfl

/-- Behind some events are those after the last of them. -/
theorem eventsAfter_lastSeq {passed more : List (Nat × Event)} (h : v.eventsAfter n = passed ++ more) :
    v.eventsAfter (lastSeq n passed) = more := by
  induction passed generalizing n with
  | nil => exact h
  | cons x rest ih =>
    obtain ⟨seq, e⟩ := x
    rw [lastSeq_cons]
    exact ih (View.eventsAfter_of_cons h)

theorem lastSeq_le {passed : List (Nat × Event)} (hle : n ≤ b) (hpassed : ∀ x ∈ passed, x.1 ≤ b) :
    lastSeq n passed ≤ b := by
  induction passed generalizing n with
  | nil => exact hle
  | cons x rest ih =>
    obtain ⟨seq, e⟩ := x
    rw [lastSeq_cons]
    exact ih (hpassed _ List.mem_cons_self) fun y hy => hpassed y (List.mem_cons_of_mem _ hy)

/-- The last of some events is not before any of them. -/
theorem le_lastSeq {passed more : List (Nat × Event)} (h : v.eventsAfter n = passed ++ more) :
    n ≤ lastSeq n passed ∧ ∀ x ∈ passed, x.1 ≤ lastSeq n passed := by
  induction passed generalizing n with
  | nil => exact ⟨Nat.le_refl _, fun _ hx => absurd hx List.not_mem_nil⟩
  | cons x rest ih =>
    obtain ⟨seq, e⟩ := x
    obtain ⟨hfirst, hrest⟩ := ih (View.eventsAfter_of_cons h)
    have hlt : n < seq := (View.event?_of_cons h).2
    rw [lastSeq_cons]
    refine ⟨by omega, fun y hy => ?_⟩
    rcases List.mem_cons.1 hy with rfl | hy
    · exact hfirst
    · exact hrest y hy

/-- Behind the events up to a seq are those above it. -/
theorem lt_of_mem_dropWhile {l : List (Nat × Event)} (h : l.Pairwise fun x y => x.1 < y.1) :
    ∀ x ∈ l.dropWhile (fun x => x.1 ≤ n), n < x.1 := by
  induction l with
  | nil => exact fun _ hx => absurd hx List.not_mem_nil
  | cons y rest ih =>
    obtain ⟨hy, hrest⟩ := List.pairwise_cons.1 h
    rw [List.dropWhile_cons]
    split
    · exact ih hrest
    · rename_i hlt
      rw [decide_eq_true_eq, Nat.not_le] at hlt
      intro x hx
      rcases List.mem_cons.1 hx with rfl | hx
      · exact hlt
      · exact Nat.lt_trans hlt (hy x hx)

/-! ### Dispatches and turns -/

/-- What is sent when an event has been shown to the monitors. -/
def shown (seq : Nat) (whos : List Recipient) : List Delivery :=
  if whos.isEmpty then [] else [.live seq whos]

theorem showAll_cons {m : Monitors} {rest : List (Nat × Event)} :
    showAll m ((seq, e) :: rest) = ((showAll (m.dispatch seq e).1 rest).1,
      shown seq (m.dispatch seq e).2 ++ (showAll (m.dispatch seq e).1 rest).2) := by
  simp only [showAll, shown]
  split
  · rfl
  · rfl

/-- What a turn sends, before it says whether the replay is complete. -/
theorem out_of_turned {queries : Scheduler} {r : Replay} {slice : Replay.Slice} {turn : Scheduler.Turn}
    (h : Scheduler.Turned queries v who r slice turn) :
    turn.delivered.map (fun d => Delivery.event d.1 d.2)
      = (r.deliveredSince slice.replay).map fun seq => Delivery.event who seq := by
  rw [h.delivered, List.map_map]
  rfl

/-! ### Catching up -/

/-- What is sent when a subscription is given events. -/
def passedOn (follower : Follower) (passed : List (Nat × Event)) : List Delivery :=
  (passed.filter fun x => follower.sub.filters.accepts x.2).map fun x =>
    .live x.1 [follower.sub.toRecipient]

/-- What catching a subscription up comes to: it is given a beginning of the events up to the position
of the monitors, all of them if no read fails, and stands where they end. -/
structure CaughtUp (v : View) (n : Nat) (follower : Follower)
    (result : Follower × List Delivery × Option ReadError × Faults) (passed : List (Nat × Event)) :
    Prop where
  follower_eq : result.1 = { follower with watermark := result.1.watermark }
  out_eq : result.2.1 = passedOn follower passed
  le : follower.watermark ≤ result.1.watermark
  le_max : result.1.watermark ≤ max follower.watermark n
  le_watermark : ∀ x ∈ passed, x.1 ≤ result.1.watermark
  exists_more : ∃ more, v.eventsAfter follower.watermark = passed ++ more
    ∧ ∀ x ∈ more, result.1.watermark < x.1
  complete : result.2.2.1 = none → n ≤ result.1.watermark

theorem caughtUp (v : View) (n : Nat) (f : Faults) (follower : Follower) :
    ∃ passed, CaughtUp v n follower (catchUp v n f follower) passed := by
  rw [catchUp]
  split
  · rename_i hlt
    obtain ⟨walked, beyond, hwalk, hwalked, hend⟩ :=
      walk_cases f .eventsAfter (v.eventsAfter follower.watermark)
    have hsorted : walked.Pairwise fun x y => x.1 < y.1 := by
      have hall : (v.eventsAfter follower.watermark).Pairwise fun x y => x.1 < y.1 :=
        View.pairwise_eventsAfter
      rw [hwalk] at hall
      exact (List.pairwise_append.1 hall).1
    have hpassed : ∀ x ∈ walked.takeWhile (fun x => decide (x.1 ≤ n)), x.1 ≤ n := by
      intro x hx
      exact of_decide_eq_true (List.all_eq_true.1 List.all_takeWhile x hx)
    have hafter : v.eventsAfter follower.watermark = walked.takeWhile (fun x => decide (x.1 ≤ n))
        ++ (walked.dropWhile (fun x => decide (x.1 ≤ n)) ++ beyond) := by
      rw [← List.append_assoc, List.takeWhile_append_dropWhile, hwalk]
    refine ⟨walked.takeWhile fun x => x.1 ≤ n, ?_⟩
    simp only [hwalked]
    cases herror : (f.walk .eventsAfter (v.eventsAfter follower.watermark)).2.1 with
    | none =>
      -- nothing was held back but what lies above the position
      rw [hend herror, List.append_nil] at hafter
      refine ⟨rfl, rfl, Nat.le_of_lt hlt, Nat.le_max_right _ _, hpassed, ⟨_, hafter, ?_⟩,
        fun _ => Nat.le_refl _⟩
      exact lt_of_mem_dropWhile hsorted
    | some e =>
      -- the watermark stays with the last event passed, so the next try goes on right behind it
      obtain ⟨hle, hlast⟩ := le_lastSeq hafter
      refine ⟨rfl, rfl, hle, lastSeq_le (Nat.le_max_left _ _) fun x hx => ?_, hlast, ⟨_, hafter, ?_⟩,
        nofun⟩
      · exact Nat.le_trans (hpassed x hx) (Nat.le_max_right _ _)
      · intro x hx
        rw [← eventsAfter_lastSeq hafter] at hx
        exact (View.mem_eventsAfter.1 hx).2
  · rename_i hge
    refine ⟨[], rfl, rfl, Nat.le_refl _, Nat.le_max_left _ _, fun _ hx => absurd hx List.not_mem_nil,
      ⟨_, rfl, ?_⟩, fun _ => Nat.not_lt.1 hge⟩
    intro x hx
    exact (View.mem_eventsAfter.1 hx).2

end Worker

end EventRelay
