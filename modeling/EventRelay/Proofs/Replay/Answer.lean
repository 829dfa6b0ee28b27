import EventRelay.Filter
import EventRelay.Proofs.FirstOccurrences
import EventRelay.Proofs.Scan.Stamp
import EventRelay.Proofs.Store.Content
/-!
# Answers

The answer to a filter are the stored events up to a watermark that it accepts, newest first and up to
its limit.  The answer to a group are the answers to its filters, one after the other, every seq where
it comes first.

Main statements: `mem_events` and `FilterGroup.mem_answer` (a group whose limits are large enough is
answered with all that it accepts).
-/

namespace EventRelay

namespace View

/-- The readable events of a view and their seqs. -/
def events (v : View) : List (Nat × Event) :=
  v.rows.entries.filterMap fun b => b.2.event?.map fun e => (b.1, e)

theorem mem_events {v : View} {seq : Nat} {e : Event} :
    (seq, e) ∈ v.events ↔ v.event? seq = some e := by
  rw [event?_eq_some_iff, ← SeqMap.mem_entries_iff]
  simp only [events, List.mem_filterMap]
  constructor
  · rintro ⟨⟨n, row⟩, hmem, heq⟩
    cases row with
    | event e' =>
      cases heq
      exact hmem
    | corrupt why => cases heq
  · intro h
    exact ⟨_, h, rfl⟩

/-- No seq stands for two events. -/
theorem pairwise_events (v : View) : v.events.Pairwise fun a b => b.1 < a.1 := by
  rw [events, List.pairwise_filterMap]
  refine v.rows.descending.imp ?_
  intro a b hab x hx y hy
  obtain ⟨e, -, rfl⟩ := Option.map_eq_some_iff.1 hx
  obtain ⟨e', -, rfl⟩ := Option.map_eq_some_iff.1 hy
  exact hab

end View

namespace Filter

/-- The stamps of the events up to a watermark that a filter accepts. -/
def stampsIn (f : Filter) (v : View) (watermark : Nat) : List Stamp :=
  (v.events.filter fun x => x.1 ≤ watermark && f.accepts x.2).map fun x => ⟨x.2.createdAt, x.1⟩

/-- The seqs of the events up to a watermark that a filter accepts, newest first. -/
def matchesIn (f : Filter) (v : View) (watermark : Nat) : List Nat :=
  (Stamp.sort (f.stampsIn v watermark)).map Stamp.seq

/-- What a filter is answered with. -/
def answer (f : Filter) (v : View) (watermark : Nat) : List Nat :=
  (f.matchesIn v watermark).take f.limit.toNat

theorem mem_stampsIn {f : Filter} {v : View} {w : Nat} {x : Stamp} :
    x ∈ f.stampsIn v w ↔ x.seq ≤ w ∧
      ∃ e, v.event? x.seq = some e ∧ f.accepts e = true ∧ x.time = e.createdAt := by
  simp only [stampsIn, List.mem_map, List.mem_filter, Bool.and_eq_true, decide_eq_true_eq]
  constructor
  · rintro ⟨⟨seq, e⟩, ⟨hmem, hseq, haccepts⟩, rfl⟩
    exact ⟨hseq, e, View.mem_events.1 hmem, haccepts, rfl⟩
  · rintro ⟨hseq, e, he, haccepts, htime⟩
    refine ⟨(x.seq, e), ⟨View.mem_events.2 he, hseq, haccepts⟩, ?_⟩
    rw [← htime]

theorem nodup_stampsIn {f : Filter} {v : View} {w : Nat} : (f.stampsIn v w).Nodup := by
  rw [stampsIn, List.Nodup, List.pairwise_map]
  refine (v.pairwise_events.sublist List.filter_sublist).imp ?_
  intro a b hab heq
  exact Nat.ne_of_gt hab (congrArg Stamp.seq heq)

theorem mem_matchesIn {f : Filter} {v : View} {w seq : Nat} :
    seq ∈ f.matchesIn v w ↔ seq ≤ w ∧ ∃ e, v.event? seq = some e ∧ f.accepts e = true := by
  simp only [matchesIn, List.mem_map, Stamp.mem_sort, mem_stampsIn]
  constructor
  · rintro ⟨x, ⟨hseq, e, he, haccepts, -⟩, rfl⟩
    exact ⟨hseq, e, he, haccepts⟩
  · rintro ⟨hseq, e, he, haccepts⟩
    exact ⟨⟨e.createdAt, seq⟩, ⟨hseq, e, he, haccepts, rfl⟩, rfl⟩

theorem length_matchesIn {f : Filter} {v : View} {w : Nat} :
    (f.matchesIn v w).length = (f.stampsIn v w).length := by
  rw [matchesIn, List.length_map, (Stamp.perm_sort _).length_eq]

/-- The further one looks, the more matches there are. -/
theorem length_matchesIn_le {f : Filter} {v : View} {w w' : Nat} (h : w ≤ w') :
    (f.matchesIn v w).length ≤ (f.matchesIn v w').length := by
  have hsublist : (f.stampsIn v w).Sublist (f.stampsIn v w') := by
    refine (List.monotone_filter_right v.events ?_).map _
    intro x hx
    simp only [Bool.and_eq_true, decide_eq_true_eq] at hx ⊢
    exact ⟨Nat.le_trans hx.1 h, hx.2⟩
  rw [length_matchesIn, length_matchesIn]
  exact hsublist.length_le

end Filter

namespace FilterGroup

/-- What a group is answered with. -/
def answer (g : FilterGroup) (v : View) (watermark : Nat) : List Nat :=
  (g.filters.flatMap fun f => f.answer v watermark).eraseDups

theorem nodup_answer {g : FilterGroup} {v : View} {w : Nat} : (g.answer v w).Nodup :=
  nodup_eraseDups _

/-- Where no limit cuts anything off, a group is answered with all that it accepts. -/
theorem mem_answer {g : FilterGroup} {v : View} {w : Nat}
    (hlimits : ∀ f ∈ g.filters, (f.matchesIn v w).length ≤ f.limit.toNat) {seq : Nat} :
    seq ∈ g.answer v w ↔ seq ≤ w ∧ ∃ e, v.event? seq = some e ∧ g.accepts e = true := by
  rw [answer, List.mem_eraseDups, List.mem_flatMap]
  constructor
  · rintro ⟨f, hf, hseq⟩
    obtain ⟨hle, e, he, haccepts⟩ := Filter.mem_matchesIn.1 (List.mem_of_mem_take hseq)
    exact ⟨hle, e, he, List.any_eq_true.2 ⟨f, hf, haccepts⟩⟩
  · rintro ⟨hle, e, he, haccepts⟩
    obtain ⟨f, hf, haccepts⟩ := List.any_eq_true.1 haccepts
    refine ⟨f, hf, ?_⟩
    rw [Filter.answer, List.take_of_length_le (hlimits f hf)]
    exact Filter.mem_matchesIn.2 ⟨hle, e, he, haccepts⟩

end FilterGroup

end EventRelay
