import EventRelay.Store.Session
import EventRelay.Proofs.Store.RowCodec
/-!
# What a store holds

Both kinds of store show the same view after the same history: `View.insert` and `View.delete` are
what an insertion and a deletion do to it.  Every view that comes about that way mirrors its events:
all rows can be read, and the index tables list exactly the entries of the events stored.

Main statements: `Store.Built.view` (the views of a store are built by `View.insert` and
`View.delete`), `View.Built.mirrors` and `View.Built.admits_of_event?` (only events that were admitted
are stored).
-/

namespace EventRelay

open Std

/-! ### Maps from seqs -/

namespace SeqMap

variable {α β : Type}

theorem ext_entries {m n : SeqMap α} (h : m.entries = n.entries) : m = n := by
  cases m
  cases n
  cases h
  rfl

theorem map_place {f : α → β} {seq : Nat} {a : α} {l : List (Nat × α)} :
    (place seq a l).map (fun b => (b.1, f b.2)) = place seq (f a) (l.map fun b => (b.1, f b.2)) := by
  induction l with
  | nil => rfl
  | cons b rest ih =>
    simp only [place, List.map_cons]
    split
    · rfl
    · split
      · rfl
      · rw [List.map_cons, ih]

theorem map_insert {f : α → β} {m : SeqMap α} {seq : Nat} {a : α} :
    (m.insert seq a).map f = (m.map f).insert seq (f a) :=
  ext_entries map_place

theorem map_erase {f : α → β} {m : SeqMap α} {seq : Nat} :
    (m.erase seq).map f = (m.map f).erase seq := by
  apply ext_entries
  simp only [map, erase, List.filter_map]
  rfl

theorem erase_eq_self {m : SeqMap α} {seq : Nat} (h : m.get? seq = none) : m.erase seq = m := by
  refine ext_entries (List.filter_eq_self.2 fun b hb => decide_eq_true fun hseq => ?_)
  rw [← hseq, mem_entries_iff.1 hb] at h
  cases h

/-- The bindings after a seq are those above it. -/
theorem after_eq_filter {m : SeqMap α} {seq : Nat} :
    m.after seq = (m.entries.filter fun b => decide (seq < b.1)).reverse := by
  rw [after, takeWhile_eq_filter]
  refine m.descending.imp fun {a b} hab hb => decide_eq_true ?_
  exact Nat.lt_trans (of_decide_eq_true hb) hab

/-- Only the bindings above a seq are found after it. -/
theorem mem_after {m : SeqMap α} {seq n : Nat} {a : α} :
    (n, a) ∈ m.after seq ↔ m.get? n = some a ∧ seq < n := by
  rw [after_eq_filter, List.mem_reverse, List.mem_filter, mem_entries_iff, decide_eq_true_eq]

theorem after_map {f : α → β} {m : SeqMap α} {seq : Nat} :
    (m.map f).after seq = (m.after seq).map fun b => (b.1, f b.2) := by
  rw [after_eq_filter, after_eq_filter, map, List.filter_map, List.map_reverse]
  rfl

/-- What is found after a seq is in ascending order. -/
theorem pairwise_after {m : SeqMap α} {seq : Nat} :
    (m.after seq).Pairwise fun a b => a.1 < b.1 := by
  rw [after, List.pairwise_reverse]
  exact m.descending.sublist (List.takeWhile_sublist _)

end SeqMap

/-! ### Index tables -/

namespace Indices

theorem ext_get {i j : Indices} (h : ∀ k, i.get k = j.get k) : i = j := by
  have hid := h .id
  have hauthor := h .author
  have hkind := h .kind
  have hpair := h .authorKind
  have htag := h .tag
  have htime := h .createdAt
  cases i
  cases j
  simp only [get] at *
  simp [*]

theorem mem_get_modify_insert {i : Indices} {j k : IndexKind} {x y : Entry} :
    x ∈ (i.modify j (·.insert y)).get k ↔ x ∈ i.get k ∨ (k = j ∧ x = y) := by
  by_cases h : k = j
  · subst h
    rw [get_modify_self, OrderedSet.mem_insert, or_comm]
    simp
  · rw [get_modify_of_ne h]
    simp [h]

theorem mem_get_modify_erase {i : Indices} {j k : IndexKind} {x y : Entry} :
    x ∈ (i.modify j (·.erase y)).get k ↔ x ∈ i.get k ∧ ¬ (k = j ∧ x = y) := by
  by_cases h : k = j
  · subst h
    rw [get_modify_self, OrderedSet.mem_erase]
    simp
  · rw [get_modify_of_ne h]
    simp [h]

theorem eq_entry_iff {x : Entry} {key : Bytes} {seq : Nat} :
    x = ⟨key, seq⟩ ↔ x.seq = seq ∧ x.key = key := by
  cases x
  simp only [Entry.mk.injEq]
  exact and_comm

theorem mem_get_add {i : Indices} {seq : Nat} {entries : List (IndexKind × Bytes)} {k : IndexKind}
    {x : Entry} :
    x ∈ (i.add seq entries).get k ↔ x ∈ i.get k ∨ (x.seq = seq ∧ (k, x.key) ∈ entries) := by
  induction entries generalizing i with
  | nil => simp [add]
  | cons e rest ih =>
    obtain ⟨j, key⟩ := e
    have hfold : i.add seq ((j, key) :: rest) = (i.modify j (·.insert ⟨key, seq⟩)).add seq rest := rfl
    rw [hfold, ih, mem_get_modify_insert, eq_entry_iff, List.mem_cons, Prod.mk.injEq, or_assoc]
    constructor
    · rintro (h | ⟨hk, hs, hkey⟩ | ⟨hs, h⟩)
      · exact .inl h
      · exact .inr ⟨hs, .inl ⟨hk, hkey⟩⟩
      · exact .inr ⟨hs, .inr h⟩
    · rintro (h | ⟨hs, ⟨hk, hkey⟩ | h⟩)
      · exact .inl h
      · exact .inr (.inl ⟨hk, hs, hkey⟩)
      · exact .inr (.inr ⟨hs, h⟩)

theorem mem_get_remove {i : Indices} {seq : Nat} {entries : List (IndexKind × Bytes)} {k : IndexKind}
    {x : Entry} :
    x ∈ (i.remove seq entries).get k ↔ x ∈ i.get k ∧ ¬ (x.seq = seq ∧ (k, x.key) ∈ entries) := by
  induction entries generalizing i with
  | nil => simp [remove]
  | cons e rest ih =>
    obtain ⟨j, key⟩ := e
    have hfold : i.remove seq ((j, key) :: rest)
        = (i.modify j (·.erase ⟨key, seq⟩)).remove seq rest := rfl
    rw [hfold, ih, mem_get_modify_erase, eq_entry_iff, List.mem_cons, Prod.mk.injEq, and_assoc]
    constructor
    · rintro ⟨h, hne, hrest⟩
      refine ⟨h, ?_⟩
      rintro ⟨hs, ⟨hk, hkey⟩ | hmem⟩
      · exact hne ⟨hk, hs, hkey⟩
      · exact hrest ⟨hs, hmem⟩
    · rintro ⟨h, hne⟩
      exact ⟨h, fun ⟨hk, hs, hkey⟩ => hne ⟨hs, .inl ⟨hk, hkey⟩⟩, fun ⟨hs, hmem⟩ => hne ⟨hs, .inr hmem⟩⟩

theorem mem_get_removeSeq {i : Indices} {seq : Nat} {k : IndexKind} {x : Entry} :
    x ∈ (i.removeSeq seq).get k ↔ x ∈ i.get k ∧ x.seq ≠ seq := by
  simp [removeSeq]

end Indices

/-! ### Histories of a view -/

namespace View

/-- What a store without events shows. -/
def empty : View := ⟨0, .empty, .empty⟩

/-- What a store shows once an event has been stored under the next seq. -/
def insert (v : View) (e : Event) : View where
  latestSeq := v.latestSeq + 1
  rows := v.rows.insert (v.latestSeq + 1) (.event e)
  indices := v.indices.add (v.latestSeq + 1) e.indexEntries

/-- What a store shows once the event of a seq has been deleted. -/
def delete (v : View) (seq : Nat) : View :=
  { v with rows := v.rows.erase seq, indices := v.indices.removeSeq seq }

/-- The views that insertions of admitted events and deletions lead to. -/
inductive Built (admits : Event → Prop) : View → Prop
  | empty : Built admits empty
  | insert {v e} : Built admits v → admits e → Built admits (v.insert e)
  | delete {v seq} : Built admits v → Built admits (v.delete seq)

/-- Every row can be read, no seq is above the last one given out, and the index tables list exactly
the entries of the events stored. -/
structure Mirrors (v : View) : Prop where
  readable : ∀ {seq row}, v.rows.get? seq = some row → ∃ e, row = .event e
  bounded : ∀ {seq e}, v.event? seq = some e → seq ≤ v.latestSeq
  mem_get_iff : ∀ {k x}, x ∈ v.indices.get k ↔ ∃ e, v.event? x.seq = some e ∧ (k, x.key) ∈ e.indexEntries

theorem event?_insert {v : View} {e : Event} {seq : Nat} :
    (v.insert e).event? seq = if seq = v.latestSeq + 1 then some e else v.event? seq := by
  rw [event?, insert, SeqMap.get?_insert]
  split
  · rfl
  · rfl

theorem event?_delete {v : View} {n seq : Nat} :
    (v.delete n).event? seq = if seq = n then none else v.event? seq := by
  rw [event?, delete, SeqMap.get?_erase]
  split
  · rfl
  · rfl

theorem not_mem_empty {k : IndexKind} {x : Entry} : x ∉ empty.indices.get k := by
  have hget : empty.indices.get k = .empty := Indices.get_empty
  rw [hget]
  exact List.not_mem_nil

theorem mirrors_empty : empty.Mirrors where
  readable h := by cases h
  bounded h := by cases h
  mem_get_iff := by
    intro k x
    constructor
    · intro h
      exact absurd h not_mem_empty
    · rintro ⟨e, he, -⟩
      cases he

theorem event?_eq_some_iff {v : View} {seq : Nat} {e : Event} :
    v.event? seq = some e ↔ v.rows.get? seq = some (.event e) := by
  rw [event?]
  cases v.rows.get? seq with
  | none => simp
  | some row => cases row <;> simp [Stored.event?]

theorem Mirrors.insert {v : View} (h : v.Mirrors) (e : Event) : (v.insert e).Mirrors where
  readable {seq row} hrow := by
    rw [View.insert, SeqMap.get?_insert] at hrow
    split at hrow
    · exact ⟨e, (Option.some.inj hrow).symm⟩
    · exact h.readable hrow
  bounded {seq e'} he := by
    rw [event?_insert] at he
    split at he
    · rename_i heq
      exact Nat.le_of_eq heq
    · exact Nat.le_succ_of_le (h.bounded he)
  mem_get_iff {k x} := by
    have hadd : x ∈ (v.insert e).indices.get k ↔
        x ∈ v.indices.get k ∨ (x.seq = v.latestSeq + 1 ∧ (k, x.key) ∈ e.indexEntries) :=
      Indices.mem_get_add
    rw [hadd, h.mem_get_iff, event?_insert]
    by_cases hx : x.seq = v.latestSeq + 1
    · have hnone : ∀ e', v.event? x.seq ≠ some e' := fun e' he => by
        have := h.bounded he
        omega
      simp [hx, hx ▸ hnone]
    · simp [hx]

theorem Mirrors.delete {v : View} (h : v.Mirrors) (seq : Nat) : (v.delete seq).Mirrors where
  readable {n row} hrow := by
    rw [View.delete, SeqMap.get?_erase] at hrow
    split at hrow
    · cases hrow
    · exact h.readable hrow
  bounded {n e} he := by
    rw [event?_delete] at he
    split at he
    · cases he
    · exact h.bounded he
  mem_get_iff {k x} := by
    have hcut : x ∈ (v.delete seq).indices.get k ↔ x ∈ v.indices.get k ∧ x.seq ≠ seq :=
      Indices.mem_get_removeSeq
    rw [hcut, h.mem_get_iff, event?_delete]
    by_cases hx : x.seq = seq
    · simp [hx]
    · simp [hx]

/-- The tables of a view always mirror its events. -/
theorem Built.mirrors {admits : Event → Prop} {v : View} (h : v.Built admits) : v.Mirrors := by
  induction h with
  | empty => exact mirrors_empty
  | insert _ _ ih => exact ih.insert _
  | delete _ ih => exact ih.delete _

theorem Built.mono {admits admits' : Event → Prop} (himp : ∀ e, admits e → admits' e) {v : View}
    (h : v.Built admits) : v.Built admits' := by
  induction h with
  | empty => exact .empty
  | insert _ hadmits ih => exact ih.insert (himp _ hadmits)
  | delete _ ih => exact ih.delete

/-- Only admitted events are stored. -/
theorem Built.admits_of_event? {admits : Event → Prop} {v : View} (h : v.Built admits) {seq : Nat}
    {e : Event} (he : v.event? seq = some e) : admits e := by
  induction h with
  | empty => cases he
  | insert _ hadmits ih =>
    rw [event?_insert] at he
    split at he
    · exact Option.some.inj he ▸ hadmits
    · exact ih he
  | delete _ ih =>
    rw [event?_delete] at he
    split at he
    · cases he
    · exact ih he

end View

/-! ### Both kinds of store -/

theorem MemoryStore.view_insert {s : MemoryStore} {e : Event} :
    (s.insert e).view = s.view.insert e := by
  simp only [view, insert, View.insert, SeqMap.map_insert]

theorem RowStore.view_insert {s s' : RowStore} {e : Event} {text : String} {seq : Option Nat}
    (h : s.insert e text = .ok (seq, s')) :
    (seq = none ∧ s' = s) ∨ (seq = some (s.lastSeq + 1) ∧ s'.view = s.view.insert e) := by
  rw [insert] at h
  split at h
  · cases h
  · rename_i packed hpacked
    split at h
    · cases h
      exact .inl ⟨rfl, rfl⟩
    · split at h
      · cases h
      · cases h
        refine .inr ⟨rfl, ?_⟩
        simp only [view, View.insert, SeqMap.map_insert, Row.stored_ofEvent hpacked]

/-- Deleting an event takes away the entries of its seq and no others. -/
theorem MemoryStore.view_delete? {s s' : MemoryStore} {seq : Nat} (hs : s.view.Mirrors)
    (h : s.delete? seq = some s') : s'.view = s.view.delete seq := by
  obtain ⟨e, he, rfl⟩ := Option.map_eq_some_iff.1 h
  have hview : s.view.event? seq = some e := by
    rw [View.event?_eq_some_iff, view, SeqMap.get?_map, he]
    rfl
  have hindices : s.indices.remove seq e.indexEntries = s.indices.removeSeq seq := by
    apply Indices.ext_get
    intro k
    apply OrderedSet.ext_mem
    intro x
    rw [Indices.mem_get_remove, Indices.mem_get_removeSeq]
    refine and_congr_right fun hx => not_congr ?_
    refine ⟨And.left, fun hseq => ⟨hseq, ?_⟩⟩
    obtain ⟨e', he', hmem⟩ := (hs.mem_get_iff (k := k)).1 hx
    rw [hseq, hview] at he'
    exact Option.some.inj he' ▸ hmem
  simp only [view, View.delete, SeqMap.map_erase, hindices]

theorem RowStore.view_delete? {s s' : RowStore} {seq : Nat} (h : s.delete? seq = some s') :
    s'.view = s.view.delete seq := by
  obtain ⟨row, -, rfl⟩ := Option.map_eq_some_iff.1 h
  simp only [view, View.delete, SeqMap.map_erase]

namespace Store

/-- The stores that insertions of admitted events, with any text, and deletions lead to. -/
inductive Built (admits : Event → Prop) : Store → Prop
  | memory : Built admits (.memory .empty)
  | rows : Built admits (.rows .empty)
  | insert {s s' e text seq} :
      Built admits s → admits e → s.insertWithText e text = .ok (seq, s') → Built admits s'
  | delete {s s' seq} : Built admits s → s.delete? seq = some s' → Built admits s'

theorem Built.mono {admits admits' : Event → Prop} (himp : ∀ e, admits e → admits' e) {s : Store}
    (h : s.Built admits) : s.Built admits' := by
  induction h with
  | memory => exact .memory
  | rows => exact .rows
  | insert _ he hins ih => exact ih.insert (himp _ he) hins
  | delete _ hdel ih => exact ih.delete hdel

/-- An insertion that goes through changes nothing, or it adds the event under the next seq. -/
theorem insertWithText_cases {s s' : Store} {e : Event} {text : String} {seq : Option Nat}
    (h : s.insertWithText e text = .ok (seq, s')) :
    (seq = none ∧ s' = s) ∨ (seq = some (s.view.latestSeq + 1) ∧ s'.view = s.view.insert e) := by
  cases s with
  | memory s =>
    cases h
    exact .inr ⟨rfl, MemoryStore.view_insert⟩
  | rows s =>
    simp only [insertWithText] at h
    split at h
    · rename_i hrows
      cases h
      rcases RowStore.view_insert hrows with ⟨hseq, rfl⟩ | ⟨hseq, hview⟩
      · exact .inl ⟨hseq, rfl⟩
      · exact .inr ⟨hseq, hview⟩
    · cases h

/-- An insertion that goes through leaves the view as it was or adds the event. -/
theorem view_insertWithText {s s' : Store} {e : Event} {text : String} {seq : Option Nat}
    (h : s.insertWithText e text = .ok (seq, s')) : s'.view = s.view ∨ s'.view = s.view.insert e :=
  (insertWithText_cases h).imp (fun hsame => congrArg Store.view hsame.2) And.right

theorem view_delete? {s s' : Store} {seq : Nat} (hs : s.view.Mirrors) (h : s.delete? seq = some s') :
    s'.view = s.view.delete seq := by
  cases s with
  | memory s =>
    obtain ⟨t, ht, rfl⟩ := Option.map_eq_some_iff.1 h
    exact MemoryStore.view_delete? hs ht
  | rows s =>
    obtain ⟨t, ht, rfl⟩ := Option.map_eq_some_iff.1 h
    exact RowStore.view_delete? ht

theorem Built.memory_insert {admits : Event → Prop} {s : MemoryStore} {e : Event}
    (h : (Store.memory s).Built admits) (he : admits e) : (Store.memory (s.insert e)).Built admits :=
  h.insert he (rfl : (Store.memory s).insertWithText e "" = _)

/-- What a store shows has been built by insertions and deletions. -/
theorem Built.view {admits : Event → Prop} {s : Store} (h : s.Built admits) :
    s.view.Built admits := by
  induction h with
  | memory => exact .empty
  | rows => exact .empty
  | insert _ hadmits hins ih =>
    rcases view_insertWithText hins with hview | hview
    · rw [hview]
      exact ih
    · rw [hview]
      exact ih.insert hadmits
  | delete _ hdel ih =>
    rw [view_delete? ih.mirrors hdel]
    exact ih.delete

end Store

end EventRelay
