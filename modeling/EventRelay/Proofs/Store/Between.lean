import Mathlib.Data.List.Sort
import EventRelay.Proofs.Scan.Steady
/-!
# The events between two seqs

What is passed on live of a store are the events above one seq and up to another that a group accepts,
in the order in which they were stored.

Main statement: `between_eq_append` (a further stretch of the events is put behind).
-/

namespace EventRelay

namespace View

variable {v : View} {a b n seq : Nat} {e : Event} {g : FilterGroup}

theorem mem_eventsAfter : (seq, e) ∈ v.eventsAfter n ↔ v.event? seq = some e ∧ n < seq := by
  rw [event?_eq_some_iff, ← SeqMap.mem_after, eventsAfter, List.mem_filterMap]
  constructor
  · rintro ⟨⟨m, row⟩, hmem, heq⟩
    cases row with
    | event e' =>
      cases heq
      exact hmem
    | corrupt why => cases heq
  · intro h
    exact ⟨_, h, rfl⟩

theorem pairwise_eventsAfter : (v.eventsAfter n).Pairwise fun x y => x.1 < y.1 := by
  rw [eventsAfter, List.pairwise_filterMap]
  refine SeqMap.pairwise_after.imp ?_
  intro x y hxy x' hx y' hy
  obtain ⟨e, -, rfl⟩ := Option.map_eq_some_iff.1 hx
  obtain ⟨e', -, rfl⟩ := Option.map_eq_some_iff.1 hy
  exact hxy

theorem event?_of_cons {rest : List (Nat × Event)} (h : v.eventsAfter n = (seq, e) :: rest) :
    v.event? seq = some e ∧ n < seq := by
  apply mem_eventsAfter.1
  rw [h]
  exact List.mem_cons_self

/-- Behind the first event are those after it. -/
theorem eventsAfter_of_cons {rest : List (Nat × Event)} (h : v.eventsAfter n = (seq, e) :: rest) :
    v.eventsAfter seq = rest := by
  have hsorted : ((seq, e) :: rest).Pairwise fun x y => x.1 < y.1 := by
    rw [← h]
    exact pairwise_eventsAfter
  obtain ⟨hfirst, hrest⟩ := List.pairwise_cons.1 hsorted
  have hlt : n < seq := (event?_of_cons h).2
  have : Std.Irrefl fun x y : Nat × Event => x.1 < y.1 := ⟨fun x => Nat.lt_irrefl x.1⟩
  refine pairwise_eventsAfter.eq_of_mem_iff hrest fun {x} => ?_
  obtain ⟨m, e'⟩ := x
  have hmem : (m, e') ∈ v.eventsAfter n ↔ (m, e') = (seq, e) ∨ (m, e') ∈ rest := by
    rw [h, List.mem_cons]
  rw [mem_eventsAfter] at hmem ⊢
  constructor
  · rintro ⟨he', hm⟩
    rcases hmem.1 ⟨he', Nat.lt_trans hlt hm⟩ with heq | hx
    · cases heq
      exact absurd hm (Nat.lt_irrefl _)
    · exact hx
  · intro hx
    exact ⟨(hmem.2 (.inr hx)).1, hfirst _ hx⟩

/-- The seqs above `a` and up to `b` of the events that a group accepts. -/
def between (v : View) (a b : Nat) (g : FilterGroup) : List Nat :=
  ((v.eventsAfter a).filter fun x => x.1 ≤ b && g.accepts x.2).map Prod.fst

theorem mem_between : seq ∈ v.between a b g ↔
    a < seq ∧ seq ≤ b ∧ ∃ e, v.event? seq = some e ∧ g.accepts e = true := by
  simp only [between, List.mem_map, List.mem_filter, Bool.and_eq_true, decide_eq_true_eq]
  constructor
  · rintro ⟨⟨seq, e⟩, ⟨hmem, hle, haccepts⟩, rfl⟩
    obtain ⟨he, hlt⟩ := mem_eventsAfter.1 hmem
    exact ⟨hlt, hle, e, he, haccepts⟩
  · rintro ⟨hlt, hle, e, he, haccepts⟩
    exact ⟨(seq, e), ⟨mem_eventsAfter.2 ⟨he, hlt⟩, hle, haccepts⟩, rfl⟩

theorem pairwise_between : (v.between a b g).Pairwise (· < ·) :=
  List.pairwise_map.2 (pairwise_eventsAfter.filter _)

theorem between_eq_nil (h : b ≤ a) : v.between a b g = [] := by
  apply List.eq_nil_iff_forall_not_mem.2
  intro seq hseq
  obtain ⟨hlt, hle, -⟩ := mem_between.1 hseq
  omega

theorem between_eq_of_agree {v' : View} (h : v.Agree v' b) : v'.between a b g = v.between a b g := by
  refine pairwise_between.eq_of_mem_iff pairwise_between fun {seq} => ?_
  rw [mem_between, mem_between]
  refine and_congr_right fun _ => and_congr_right fun hle => ?_
  rw [h.event?_eq _ hle]

/-- A further stretch of the events is put behind. -/
theorem between_eq_append {passed more : List (Nat × Event)} (hafter : v.eventsAfter n = passed ++ more)
    (hle : n ≤ b) (hpassed : ∀ x ∈ passed, x.1 ≤ b) (hmore : ∀ x ∈ more, b < x.1) :
    v.between a b g = v.between a n g
      ++ (passed.filter fun x => a < x.1 && g.accepts x.2).map Prod.fst := by
  have hmem : ∀ {seq e}, (seq, e) ∈ passed ↔ v.event? seq = some e ∧ n < seq ∧ seq ≤ b := by
    intro seq e
    have hsplit : (seq, e) ∈ passed ∨ (seq, e) ∈ more ↔ v.event? seq = some e ∧ n < seq := by
      rw [← List.mem_append, ← hafter, mem_eventsAfter]
    constructor
    · intro h
      obtain ⟨he, hlt⟩ := hsplit.1 (.inl h)
      exact ⟨he, hlt, hpassed _ h⟩
    · rintro ⟨he, hlt, hle⟩
      rcases hsplit.2 ⟨he, hlt⟩ with h | h
      · exact h
      · exact absurd (hmore _ h) (Nat.not_lt.2 hle)
  have hsorted : passed.Pairwise fun x y => x.1 < y.1 := by
    have hall : (v.eventsAfter n).Pairwise fun x y => x.1 < y.1 := pairwise_eventsAfter
    rw [hafter] at hall
    exact (List.pairwise_append.1 hall).1
  have hnew : ∀ {seq}, seq ∈ (passed.filter fun x => a < x.1 && g.accepts x.2).map Prod.fst ↔
      a < seq ∧ n < seq ∧ seq ≤ b ∧ ∃ e, v.event? seq = some e ∧ g.accepts e = true := by
    intro seq
    simp only [List.mem_map, List.mem_filter, Bool.and_eq_true, decide_eq_true_eq]
    constructor
    · rintro ⟨⟨seq, e⟩, ⟨h, hlt, haccepts⟩, rfl⟩
      obtain ⟨he, hn, hle⟩ := hmem.1 h
      exact ⟨hlt, hn, hle, e, he, haccepts⟩
    · rintro ⟨hlt, hn, hle, e, he, haccepts⟩
      exact ⟨(seq, e), ⟨hmem.2 ⟨he, hn, hle⟩, hlt, haccepts⟩, rfl⟩
  -- both sides ascend, so it is enough that they have the same members
  refine pairwise_between.eq_of_mem_iff ?_ fun {seq} => ?_
  · refine List.pairwise_append.2 ⟨pairwise_between, List.pairwise_map.2 (hsorted.filter _), ?_⟩
    intro x hx y hy
    have hxn := (mem_between.1 hx).2.1
    have hyn := (hnew.1 hy).2.1
    omega
  · rw [List.mem_append, mem_between, mem_between, hnew]
    constructor
    · rintro ⟨hlt, hb, he⟩
      rcases Nat.lt_or_ge n seq with hn | hn
      · exact .inr ⟨hlt, hn, hb, he⟩
      · exact .inl ⟨hlt, hn, he⟩
    · rintro (⟨hlt, hn, he⟩ | ⟨hlt, -, hb, he⟩)
      · exact ⟨hlt, Nat.le_trans hn hle, he⟩
      · exact ⟨hlt, hb, he⟩

end View

end EventRelay
