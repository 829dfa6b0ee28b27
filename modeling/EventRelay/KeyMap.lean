/-!
# Finite maps

A finite map as a list of bindings in which every key stands once.  The order of the bindings means
nothing; nothing below reads it.

Main statements: `get?_insert`, `get?_erase` and `get?_modify` say what the operations do to a
look-up, `mem_entries_iff` that the bindings are what a look-up finds.
-/

namespace EventRelay

structure KeyMap (κ β : Type) where
  entries : List (κ × β)
  distinct : (entries.map Prod.fst).Nodup
  deriving DecidableEq

namespace KeyMap

variable {κ β : Type}

def empty : KeyMap κ β := ⟨[], .nil⟩

def size (m : KeyMap κ β) : Nat := m.entries.length

def isEmpty (m : KeyMap κ β) : Bool := m.entries.isEmpty

def keys (m : KeyMap κ β) : List κ := m.entries.map Prod.fst

def values (m : KeyMap κ β) : List β := m.entries.map Prod.snd

theorem nodup_filter {p : κ × β → Bool} {l : List (κ × β)} (h : (l.map Prod.fst).Nodup) :
    ((l.filter p).map Prod.fst).Nodup :=
  h.sublist (List.filter_sublist.map _)

/-- A key is bound once. -/
theorem eq_of_mem {m : KeyMap κ β} {k : κ} {a b : β} (ha : (k, a) ∈ m.entries)
    (hb : (k, b) ∈ m.entries) : a = b := by
  have key : ∀ {l : List (κ × β)}, (l.map Prod.fst).Nodup → (k, a) ∈ l → (k, b) ∈ l → a = b := by
    intro l
    induction l with
    | nil => simp
    | cons x rest ih =>
      intro h ha hb
      rw [List.map_cons, List.nodup_cons] at h
      rcases List.mem_cons.1 ha with ha | ha <;> rcases List.mem_cons.1 hb with hb | hb
      · rw [← ha] at hb
        exact (Prod.mk.inj hb).2.symm
      · rw [← ha] at h
        exact absurd (List.mem_map_of_mem (f := Prod.fst) hb) h.1
      · rw [← hb] at h
        exact absurd (List.mem_map_of_mem (f := Prod.fst) ha) h.1
      · exact ih h.2 ha hb
  exact key m.distinct ha hb

variable [DecidableEq κ]

/-- The value bound to a key. -/
def get? (m : KeyMap κ β) (k : κ) : Option β :=
  (m.entries.find? fun b => b.1 = k).map Prod.snd

def contains (m : KeyMap κ β) (k : κ) : Bool := (m.get? k).isSome

def erase (m : KeyMap κ β) (k : κ) : KeyMap κ β :=
  ⟨m.entries.filter fun b => b.1 ≠ k, nodup_filter m.distinct⟩

def insert (m : KeyMap κ β) (k : κ) (b : β) : KeyMap κ β :=
  ⟨(k, b) :: (m.erase k).entries, by
    rw [List.map_cons, List.nodup_cons]
    refine ⟨fun h => ?_, (m.erase k).distinct⟩
    obtain ⟨x, hx, rfl⟩ := List.mem_map.1 h
    exact absurd rfl (of_decide_eq_true (List.mem_filter.1 hx).2)⟩

/-- Changes the value of a key, if it is bound. -/
def modify (m : KeyMap κ β) (k : κ) (f : β → β) : KeyMap κ β :=
  ⟨m.entries.map fun b => if b.1 = k then (b.1, f b.2) else b, by
    have : (m.entries.map fun b => if b.1 = k then (b.1, f b.2) else b).map Prod.fst
        = m.entries.map Prod.fst := by
      rw [List.map_map]
      refine List.map_congr_left fun b _ => ?_
      simp only [Function.comp]
      split <;> rfl
    rw [this]
    exact m.distinct⟩

theorem mem_entries_iff {m : KeyMap κ β} {k : κ} {b : β} :
    (k, b) ∈ m.entries ↔ m.get? k = some b := by
  rw [get?, Option.map_eq_some_iff]
  constructor
  · intro h
    cases hf : m.entries.find? fun b => b.1 = k with
    | none => simpa using List.find?_eq_none.1 hf _ h
    | some x =>
      obtain ⟨n, y⟩ := x
      have hn := List.find?_some hf
      cases of_decide_eq_true hn
      exact ⟨_, rfl, eq_of_mem (List.mem_of_find?_eq_some hf) h⟩
  · rintro ⟨⟨n, y⟩, hf, rfl⟩
    have hn := List.find?_some hf
    cases of_decide_eq_true hn
    exact List.mem_of_find?_eq_some hf

theorem get?_ext {m : KeyMap κ β} {k : κ} {o : Option β}
    (h : ∀ b, (k, b) ∈ m.entries ↔ o = some b) : m.get? k = o := by
  cases hg : m.get? k with
  | none =>
    cases o with
    | none => rfl
    | some b => rw [mem_entries_iff.1 ((h b).2 rfl)] at hg; cases hg
  | some b => exact ((h b).1 (mem_entries_iff.2 hg)).symm

theorem get?_erase {m : KeyMap κ β} {j k : κ} :
    (m.erase k).get? j = if j = k then none else m.get? j := by
  refine get?_ext fun b => ?_
  simp only [erase, List.mem_filter, decide_eq_true_eq, mem_entries_iff]
  split
  · rename_i h
    simp [h]
  · rename_i h
    simp [h]

theorem get?_insert {m : KeyMap κ β} {j k : κ} {b : β} :
    (m.insert k b).get? j = if j = k then some b else m.get? j := by
  refine get?_ext fun x => ?_
  rw [insert]
  simp only [List.mem_cons, Prod.mk.injEq, mem_entries_iff, get?_erase]
  split
  · rename_i h
    simp [h, eq_comm]
  · rename_i h
    simp [h]

theorem get?_modify {m : KeyMap κ β} {j k : κ} {f : β → β} :
    (m.modify k f).get? j = if j = k then (m.get? j).map f else m.get? j := by
  refine get?_ext fun x => ?_
  simp only [modify, List.mem_map]
  constructor
  · rintro ⟨⟨n, y⟩, hm, heq⟩
    rw [mem_entries_iff] at hm
    simp only at heq
    split at heq
    · rename_i hn
      cases heq
      rw [if_pos hn, hm, Option.map_some]
    · rename_i hn
      cases heq
      rw [if_neg hn, hm]
  · intro h
    split at h
    · rename_i hj
      obtain ⟨y, hy, rfl⟩ := Option.map_eq_some_iff.1 h
      exact ⟨(j, y), mem_entries_iff.2 hy, if_pos hj⟩
    · rename_i hj
      exact ⟨(j, x), mem_entries_iff.2 h, if_neg hj⟩

end KeyMap

end EventRelay
