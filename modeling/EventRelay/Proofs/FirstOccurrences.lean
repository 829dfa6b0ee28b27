import Mathlib.Data.List.Nodup
/-!
# First occurrences

What is delivered keeps only the first occurrence of every seq.  The lemmas here say how that goes
along with appending, filtering and cutting a list.
-/

namespace EventRelay

variable {α : Type} [DecidableEq α]

/-- Induction on the list of first occurrences: the head, then the rest without it. -/
theorem eraseDups_induction {motive : List α → Prop} (nil : motive [])
    (cons : ∀ a l, motive (l.filter fun b => !b == a) → motive (a :: l)) (l : List α) : motive l := by
  induction h : l.length using Nat.strongRecOn generalizing l with
  | ind n ih =>
    cases l with
    | nil => exact nil
    | cons a l =>
      apply cons
      have hle := List.length_filter_le (fun b => !b == a) l
      have hlen : l.length < n := by rw [← h, List.length_cons]; omega
      exact ih _ (Nat.lt_of_le_of_lt hle hlen) _ rfl

theorem nodup_eraseDups (l : List α) : l.eraseDups.Nodup := by
  induction l using eraseDups_induction with
  | nil => exact .nil
  | cons a l ih =>
    rw [List.eraseDups_cons, List.nodup_cons]
    refine ⟨fun h => ?_, ih⟩
    simpa using (List.mem_filter.1 (List.mem_eraseDups.1 h)).2

theorem filter_eraseDups (p : α → Bool) (l : List α) :
    l.eraseDups.filter p = (l.filter p).eraseDups := by
  induction l using eraseDups_induction with
  | nil => rfl
  | cons a l ih =>
    rw [List.eraseDups_cons, List.filter_cons, List.filter_cons, ih]
    split
    · rw [List.eraseDups_cons, List.filter_filter, List.filter_filter]
      simp only [Bool.and_comm]
    · rename_i ha
      rw [List.filter_filter]
      congr 1
      apply List.filter_congr
      intro b _
      cases hb : p b with
      | false => rfl
      | true =>
        have hne : b ≠ a := fun h => ha (h ▸ hb)
        simp [hne]

theorem eraseDups_of_nodup {l : List α} (h : l.Nodup) : l.eraseDups = l := by
  induction l with
  | nil => rfl
  | cons a l ih =>
    obtain ⟨ha, hl⟩ := List.nodup_cons.1 h
    have hkeep : (l.filter fun b => !b == a) = l := by
      apply List.filter_eq_self.2
      intro b hb
      have hne : b ≠ a := fun h => ha (h ▸ hb)
      simp [hne]
    rw [List.eraseDups_cons, hkeep, ih hl]

theorem eraseDups_sublist (l : List α) : l.eraseDups.Sublist l := by
  induction l using eraseDups_induction with
  | nil => exact .refl _
  | cons a l ih =>
    rw [List.eraseDups_cons]
    exact (ih.trans List.filter_sublist).cons_cons a

/-- First occurrences stay first where a function keeps the members apart. -/
theorem map_eraseDups {β : Type} [DecidableEq β] {f : α → β} {l : List α}
    (h : ∀ a ∈ l, ∀ b ∈ l, f a = f b → a = b) : (l.map f).eraseDups = l.eraseDups.map f := by
  induction l using eraseDups_induction with
  | nil => rfl
  | cons a l ih =>
    have hmem : ∀ b ∈ l.filter fun b => !b == a, b ∈ a :: l := fun b hb =>
      List.mem_cons_of_mem _ (List.mem_filter.1 hb).1
    rw [List.map_cons, List.eraseDups_cons, List.eraseDups_cons, List.map_cons, List.filter_map,
      ← ih fun b hb c hc => h b (hmem b hb) c (hmem c hc)]
    congr 3
    apply List.filter_congr
    intro b hb
    have hiff : f b = f a ↔ b = a :=
      ⟨h b (List.mem_cons_of_mem _ hb) a List.mem_cons_self, fun heq => heq ▸ rfl⟩
    by_cases hba : b = a
    · simp [hba]
    · simp [hba, mt hiff.1 hba]

/-- Behind a list, only its members matter for what occurs first. -/
theorem eraseDups_append_eq (a b : List α) :
    (a ++ b).eraseDups = a.eraseDups ++ (b.filter fun x => decide (x ∉ a)).eraseDups := by
  rw [List.eraseDups_append]
  congr 2
  apply List.filter_congr
  intro x _
  simp

theorem eraseDups_append_congr {a a' b : List α} (h : a.eraseDups = a'.eraseDups) :
    (a ++ b).eraseDups = (a' ++ b).eraseDups := by
  have hmem : ∀ x, x ∈ a ↔ x ∈ a' := by
    intro x
    rw [← List.mem_eraseDups, h, List.mem_eraseDups]
  rw [eraseDups_append_eq, eraseDups_append_eq, h]
  simp only [hmem]

theorem eraseDups_append_congr_right {a b b' : List α} (h : b.eraseDups = b'.eraseDups) :
    (a ++ b).eraseDups = (a ++ b').eraseDups := by
  rw [eraseDups_append_eq, eraseDups_append_eq, ← filter_eraseDups, h, filter_eraseDups]

theorem eraseDups_eraseDups (a : List α) : a.eraseDups.eraseDups = a.eraseDups :=
  eraseDups_of_nodup (nodup_eraseDups a)

theorem eraseDups_eraseDups_append (a b : List α) :
    (a.eraseDups ++ b).eraseDups = (a ++ b).eraseDups :=
  eraseDups_append_congr (eraseDups_eraseDups a)

theorem eraseDups_append_eraseDups (a b : List α) :
    (a ++ b.eraseDups).eraseDups = (a ++ b).eraseDups :=
  eraseDups_append_congr_right (eraseDups_eraseDups b)

/-- What has occurred before adds nothing. -/
theorem eraseDups_append_of_subset {a b : List α} (h : b ⊆ a) : (a ++ b).eraseDups = a.eraseDups := by
  have hnone : (b.filter fun x => decide (x ∉ a)) = [] := by
    apply List.filter_eq_nil_iff.2
    intro x hx
    simpa using h hx
  rw [eraseDups_append_eq, hnone, List.eraseDups_nil, List.append_nil]

end EventRelay
