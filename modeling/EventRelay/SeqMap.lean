/-!
# Maps from seqs

A finite map from seqs to values, kept as the list of its bindings with the greatest seq first.  New
seqs are greater than all before them, so adding one is putting it in front.

Main statements: `get?_insert`, `get?_erase` and `get?_map` say what the operations do to a look-up,
`mem_entries_iff` that the bindings are what a look-up finds.
-/

namespace EventRelay

/-- A map from seqs, greatest seq first. -/
structure SeqMap (α : Type) where
  entries : List (Nat × α)
  descending : entries.Pairwise fun a b => b.1 < a.1
  deriving DecidableEq

namespace SeqMap

variable {α β : Type}

def empty : SeqMap α := ⟨[], .nil⟩

/-- Puts a binding at its place; one of the same seq gives way. -/
def place (seq : Nat) (a : α) : List (Nat × α) → List (Nat × α)
  | [] => [(seq, a)]
  | b :: rest =>
    if b.1 < seq then (seq, a) :: b :: rest
    else if b.1 = seq then (seq, a) :: rest
    else b :: place seq a rest

theorem mem_place {seq : Nat} {a : α} {l : List (Nat × α)}
    (h : l.Pairwise fun a b => b.1 < a.1) {x : Nat × α} :
    x ∈ place seq a l ↔ x = (seq, a) ∨ (x ∈ l ∧ x.1 ≠ seq) := by
  induction l with
  | nil => simp [place]
  | cons b rest ih =>
    obtain ⟨hb, hrest⟩ := List.pairwise_cons.1 h
    rw [place]
    split
    · rename_i hlt
      simp only [List.mem_cons]
      constructor
      · rintro (rfl | rfl | hx)
        · exact .inl rfl
        · exact .inr ⟨.inl rfl, by omega⟩
        · exact .inr ⟨.inr hx, by have := hb x hx; omega⟩
      · rintro (rfl | ⟨hx | hx, _⟩)
        · exact .inl rfl
        · exact .inr (.inl hx)
        · exact .inr (.inr hx)
    · split
      · rename_i _ heq
        simp only [List.mem_cons]
        constructor
        · rintro (rfl | hx)
          · exact .inl rfl
          · exact .inr ⟨.inr hx, by have := hb x hx; omega⟩
        · rintro (rfl | ⟨rfl | hx, hne⟩)
          · exact .inl rfl
          · exact absurd heq hne
          · exact .inr hx
      · rename_i hlt hne
        simp only [List.mem_cons, ih hrest]
        constructor
        · rintro (rfl | rfl | ⟨hx, h⟩)
          · exact .inr ⟨.inl rfl, hne⟩
          · exact .inl rfl
          · exact .inr ⟨.inr hx, h⟩
        · rintro (rfl | ⟨rfl | hx, h⟩)
          · exact .inr (.inl rfl)
          · exact .inl rfl
          · exact .inr (.inr ⟨hx, h⟩)

theorem pairwise_place {seq : Nat} {a : α} {l : List (Nat × α)}
    (h : l.Pairwise fun a b => b.1 < a.1) : (place seq a l).Pairwise fun a b => b.1 < a.1 := by
  induction l with
  | nil => simp [place]
  | cons b rest ih =>
    obtain ⟨hb, hrest⟩ := List.pairwise_cons.1 h
    rw [place]
    split
    · rename_i hlt
      refine List.pairwise_cons.2 ⟨fun x hx => ?_, h⟩
      rcases List.mem_cons.1 hx with rfl | hx
      · exact hlt
      · exact Nat.lt_trans (hb x hx) hlt
    · split
      · rename_i _ heq
        exact List.pairwise_cons.2 ⟨fun x hx => heq ▸ hb x hx, hrest⟩
      · rename_i hlt hne
        refine List.pairwise_cons.2 ⟨fun x hx => ?_, ih hrest⟩
        rcases (mem_place hrest).1 hx with rfl | ⟨hx, _⟩
        · exact Nat.lt_of_le_of_ne (Nat.not_lt.1 hlt) (Ne.symm hne)
        · exact hb x hx

def insert (m : SeqMap α) (seq : Nat) (a : α) : SeqMap α :=
  ⟨place seq a m.entries, pairwise_place m.descending⟩

/-- The value bound to a seq. -/
def get? (m : SeqMap α) (seq : Nat) : Option α :=
  (m.entries.find? fun b => b.1 = seq).map Prod.snd

def erase (m : SeqMap α) (seq : Nat) : SeqMap α :=
  ⟨m.entries.filter fun b => b.1 ≠ seq, m.descending.filter _⟩

def map (f : α → β) (m : SeqMap α) : SeqMap β :=
  ⟨m.entries.map fun b => (b.1, f b.2), by
    rw [List.pairwise_map]
    exact m.descending⟩

/-- The bindings above a seq, the lowest first. -/
def after (m : SeqMap α) (seq : Nat) : List (Nat × α) :=
  (m.entries.takeWhile fun b => seq < b.1).reverse

/-- A seq is bound once. -/
theorem eq_of_mem {m : SeqMap α} {seq : Nat} {a b : α} (ha : (seq, a) ∈ m.entries)
    (hb : (seq, b) ∈ m.entries) : a = b := by
  have key : ∀ {l : List (Nat × α)}, l.Pairwise (fun a b => b.1 < a.1) →
      (seq, a) ∈ l → (seq, b) ∈ l → a = b := by
    intro l
    induction l with
    | nil => simp
    | cons x rest ih =>
      intro h ha hb
      obtain ⟨hx, hrest⟩ := List.pairwise_cons.1 h
      rcases List.mem_cons.1 ha with ha | ha <;> rcases List.mem_cons.1 hb with hb | hb
      · rw [← ha] at hb
        exact (Prod.mk.inj hb).2.symm
      · have := hx _ hb
        rw [← ha] at this
        exact absurd this (Nat.lt_irrefl _)
      · have := hx _ ha
        rw [← hb] at this
        exact absurd this (Nat.lt_irrefl _)
      · exact ih hrest ha hb
  exact key m.descending ha hb

theorem mem_entries_iff {m : SeqMap α} {seq : Nat} {a : α} :
    (seq, a) ∈ m.entries ↔ m.get? seq = some a := by
  rw [get?, Option.map_eq_some_iff]
  constructor
  · intro h
    cases hf : m.entries.find? fun b => b.1 = seq with
    | none =>
      have := List.find?_eq_none.1 hf _ h
      simp at this
    | some b =>
      refine ⟨b, rfl, ?_⟩
      have hb := List.find?_some hf
      have hmem := List.mem_of_find?_eq_some hf
      obtain ⟨n, b⟩ := b
      cases of_decide_eq_true hb
      exact eq_of_mem hmem h
  · rintro ⟨⟨n, b⟩, hf, rfl⟩
    have hb := List.find?_some hf
    cases of_decide_eq_true hb
    exact List.mem_of_find?_eq_some hf

theorem get?_ext {m : SeqMap α} {seq : Nat} {o : Option α}
    (h : ∀ a, (seq, a) ∈ m.entries ↔ o = some a) : m.get? seq = o := by
  cases hg : m.get? seq with
  | none =>
    cases o with
    | none => rfl
    | some a => rw [mem_entries_iff.1 ((h a).2 rfl)] at hg; cases hg
  | some a => exact ((h a).1 (mem_entries_iff.2 hg)).symm

theorem get?_insert {m : SeqMap α} {seq n : Nat} {a : α} :
    (m.insert seq a).get? n = if n = seq then some a else m.get? n := by
  refine get?_ext fun b => ?_
  rw [insert, mem_place m.descending, mem_entries_iff]
  split
  · rename_i h
    simp [h, eq_comm]
  · rename_i h
    simp [h]

theorem get?_erase {m : SeqMap α} {seq n : Nat} :
    (m.erase seq).get? n = if n = seq then none else m.get? n := by
  refine get?_ext fun b => ?_
  rw [erase]
  simp only [List.mem_filter, decide_eq_true_eq, mem_entries_iff]
  split
  · rename_i h
    simp [h]
  · rename_i h
    simp [h]

theorem get?_map {f : α → β} {m : SeqMap α} {n : Nat} : (m.map f).get? n = (m.get? n).map f := by
  refine get?_ext fun b => ?_
  rw [map, Option.map_eq_some_iff]
  simp only [List.mem_map, Prod.exists, Prod.mk.injEq]
  constructor
  · rintro ⟨k, a, hm, rfl, rfl⟩
    exact ⟨a, mem_entries_iff.1 hm, rfl⟩
  · rintro ⟨a, ha, rfl⟩
    exact ⟨n, a, mem_entries_iff.2 ha, rfl, rfl⟩

end SeqMap

end EventRelay
