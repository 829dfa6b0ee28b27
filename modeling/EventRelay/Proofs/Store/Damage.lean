import EventRelay.Proofs.Store.Content
/-!
# Damaged stores

Cells of the table store can be overwritten behind its back.  A row that cannot be read then counts as
missing, but the index tables go on listing it.  Deletions take the index entries along, so of the
stores that nobody has tampered with, none lists what cannot be read.

Main statement: `exists_damaged` (every event that fits in a row can be listed and yet be missing).
-/

namespace EventRelay

namespace Store

/-- What may become of a store: events are stored and deleted, and cells are overwritten. -/
inductive Later : Store → Store → Prop
  | refl {s} : Later s s
  | insert {s t u e text seq} : Later s t → t.insertWithText e text = .ok (seq, u) → Later s u
  | delete {s t u seq} : Later s t → t.delete? seq = some u → Later s u
  | overwrite {s rows rows' seq column cell changed} : Later s (.rows rows) →
      rows.overwrite seq column cell = .ok (changed, rows') → Later s (.rows rows')

/-- The views of a store at the times that it is looked at. -/
inductive Seen : Store → List View → Prop
  | nil {s} : Seen s []
  | cons {s t vs} : Later s t → Seen t vs → Seen s (t.view :: vs)

/-- The views of a store that was empty when it was opened. -/
def History (vs : List View) : Prop := ∃ s, (s = .memory .empty ∨ s = .rows .empty) ∧ Seen s vs

end Store

namespace RowStore

/-- A store that has been given one event, and the id in its row overwritten. -/
def damaged (e : Event) (packed : Bytes) : RowStore where
  lastSeq := 1
  rows := SeqMap.empty.insert 1 ((Row.ofEvent e packed "").set .id (.text ""))
  indices := Indices.empty.add 1 e.indexEntries

variable {e : Event} {packed : Bytes}

theorem later_damaged (h : Row.packTags? e.tags = some packed) :
    Store.Later (.rows .empty) (.rows (damaged e packed)) := by
  have hins : (Store.rows .empty).insertWithText e "" = .ok (some 1, .rows
      ⟨1, SeqMap.empty.insert 1 (.ofEvent e packed ""), Indices.empty.add 1 e.indexEntries⟩) := by
    simp only [Store.insertWithText, insert, h]
    rfl
  have hover : overwrite ⟨1, SeqMap.empty.insert 1 (.ofEvent e packed ""),
      Indices.empty.add 1 e.indexEntries⟩ 1 .id (.text "") = .ok (1, damaged e packed) := rfl
  exact (Store.Later.refl.insert hins).overwrite hover

theorem event?_damaged {seq : Nat} : (damaged e packed).view.event? seq = none := by
  rw [View.event?, view, SeqMap.get?_map, damaged, SeqMap.get?_insert]
  split
  · rfl
  · rfl

end RowStore

/-- The index tables can list an event that cannot be read, if it fits in a row. -/
theorem exists_damaged {e : Event} (h : ∀ t ∈ e.tags, t.value.length ≤ Tag.maxValueSize) :
    ∃ v, Store.History [v] ∧ v.indices = (View.empty.insert e).indices ∧ ∀ seq, v.event? seq = none := by
  obtain ⟨packed, hpacked⟩ : ∃ packed, Row.packTags? e.tags = some packed := by
    refine Option.ne_none_iff_exists'.1 fun hnone => ?_
    obtain ⟨t, ht, hlong⟩ := Row.packTags?_eq_none_iff.1 hnone
    exact Nat.not_le.2 hlong (h t ht)
  refine ⟨(RowStore.damaged e packed).view, ⟨_, .inr rfl, ?_⟩, rfl, fun _ => RowStore.event?_damaged⟩
  exact .cons (RowStore.later_damaged hpacked) .nil

end EventRelay
