import Mathlib.Data.List.Find
import Mathlib.Data.UInt
import EventRelay.Proofs.Store.Content
/-!
# Reading by query

A snapshot of the memory store looks things up in its maps.  One of the table store asks for the rows
that meet a condition, in an order: rows carry their seq as a signed word, and a seq in a condition is
cut to the largest of those.  Both are readers: they answer the same questions, and show what they list
to a visitor that may decline to go on.

Main statements: `MemoryStore.reader_eq` and `RowStore.reader_eq` (both readers answer what the view
shows, the second as long as the row numbers are not used up), `RowStore.delete_eq` (the rows that a
condition selects for deletion are those of the seq).
-/

namespace EventRelay

/-! ### Readers -/

/-- Shows one item after the other to a visitor until it declines to go on: the state it is left in,
and whether it has seen all. -/
def visitAll {σ α : Type} (visit : σ → α → σ × Bool) (state : σ) : List α → σ × Bool
  | [] => (state, true)
  | a :: rest =>
    match visit state a with
    | (state, true) => visitAll visit state rest
    | (state, false) => (state, false)

/-- What a snapshot answers: the last seq given out, the event of a seq, the entries of an index at or
below a key and a seq, the last first, and the events above a seq, the first first. -/
@[ext]
structure Reader where
  latestSeq : UInt64
  event? : UInt64 → Option Event
  back : IndexKind → Bytes → UInt64 → List (Bytes × UInt64)
  above : UInt64 → List (UInt64 × Event)

namespace Reader

variable {σ : Type}

/-- Walks an index backwards; whether the walk ran off its start. -/
def scanBack (r : Reader) (k : IndexKind) (key : Bytes) (seq : UInt64)
    (visit : σ → Bytes × UInt64 → σ × Bool) (state : σ) : σ × Bool :=
  visitAll visit state (r.back k key seq)

/-- Walks the events above a seq. -/
def eventsAfter (r : Reader) (seq : UInt64) (visit : σ → UInt64 × Event → σ × Bool) (state : σ) : σ :=
  (visitAll visit state (r.above seq)).1

end Reader

/-- Whether an event of this id is stored. -/
def Reader.Holds (r : Reader) (i : Id) : Prop := ∃ seq e, r.event? seq = some e ∧ e.id = i

/-- A view as a reader. -/
def View.reader (v : View) : Reader where
  latestSeq := .ofNat v.latestSeq
  event? seq := v.event? seq.toNat
  back k key seq := (v.back k key (some seq.toNat)).map fun e => (e.key, .ofNat e.seq)
  above seq := (v.eventsAfter seq.toNat).map fun b => (.ofNat b.1, b.2)

/-! ### Look-ups in maps -/

namespace MemoryStore

variable {s : MemoryStore}

/-- A snapshot of a memory store. -/
def reader (s : MemoryStore) : Reader where
  latestSeq := .ofNat s.lastSeq
  event? seq := s.events.get? seq.toNat
  back k key seq := ((s.indices.get k).back key (some seq.toNat)).map fun e => (e.key, .ofNat e.seq)
  above seq := (s.events.after seq.toNat).map fun b => (.ofNat b.1, b.2)

theorem event?_view {seq : Nat} : s.view.event? seq = s.events.get? seq := by
  rw [View.event?, view, SeqMap.get?_map]
  cases s.events.get? seq <;> rfl

theorem eventsAfter_view {seq : Nat} : s.view.eventsAfter seq = s.events.after seq := by
  rw [View.eventsAfter, view, SeqMap.after_map, List.filterMap_map]
  exact List.filterMap_some

theorem reader_eq : s.reader = s.view.reader := by
  apply Reader.ext
  · rfl
  · funext seq
    exact event?_view.symm
  · rfl
  · funext seq
    simp only [reader, View.reader, eventsAfter_view]

/-- Deletes what is stored under a seq; whether anything was. -/
def delete (s : MemoryStore) (seq : UInt64) : Bool × MemoryStore :=
  match s.delete? seq.toNat with
  | some s => (true, s)
  | none => (false, s)

end MemoryStore

/-! ### Row numbers -/

namespace RowStore

/-- The number of the row of a seq. -/
def number (seq : Nat) : Int64 := Int64.ofNat seq

/-- A seq in a condition, cut to the largest row number. -/
def cut (seq : UInt64) : Int64 := (min seq (.ofNat maxSeq)).toInt64

theorem toInt_number {n : Nat} (h : n ≤ maxSeq) : (number n).toInt = n :=
  Int64.toInt_ofNat_of_lt (Nat.lt_succ_of_le h)

theorem cut_eq_number {seq : UInt64} : cut seq = number (min seq.toNat maxSeq) := by
  have hmin : min seq (.ofNat maxSeq) = UInt64.ofNat (min seq.toNat maxSeq) := by
    rw [← UInt64.toNat_inj, UInt64.toNat_min, UInt64.toNat_ofNat_of_lt' (by decide),
      UInt64.toNat_ofNat_of_lt' (Nat.lt_of_le_of_lt (Nat.min_le_right _ _) (by decide))]
  rw [cut, hmin, UInt64.toInt64_ofNat', number]

theorem number_le_number {m n : Nat} (hm : m ≤ maxSeq) (hn : n ≤ maxSeq) :
    number m ≤ number n ↔ m ≤ n := by
  rw [Int64.le_iff_toInt_le, toInt_number hm, toInt_number hn, Int.ofNat_le]

/-- Where the row numbers are not used up, cutting a bound admits no other row. -/
theorem number_le_cut {n : Nat} {seq : UInt64} (h : n < maxSeq) : number n ≤ cut seq ↔ n ≤ seq.toNat := by
  rw [cut_eq_number, number_le_number (Nat.le_of_lt h) (Nat.min_le_right _ _)]
  omega

/-- Cutting a lower bound admits no other row, even where the row numbers are used up. -/
theorem cut_lt_number {n : Nat} {seq : UInt64} (h : n ≤ maxSeq) : cut seq < number n ↔ seq.toNat < n := by
  rw [Int64.lt_iff_toInt_lt, cut_eq_number, toInt_number (Nat.min_le_right _ _), toInt_number h]
  omega

theorem number_eq_cut_iff {n : Nat} {seq : UInt64} (h : n ≤ maxSeq) :
    number n = cut seq ↔ n = min seq.toNat maxSeq := by
  rw [← Int64.toInt_inj, cut_eq_number, toInt_number (Nat.min_le_right _ _), toInt_number h, Int.ofNat_inj]

theorem number_eq_cut {n : Nat} {seq : UInt64} (h : n < maxSeq) : number n = cut seq ↔ n = seq.toNat := by
  rw [number_eq_cut_iff (Nat.le_of_lt h)]
  omega

end RowStore

/-! ### Conditions -/

/-- The rows of a table that meet a condition, in an order. -/
def select {α : Type} (meets : α → Bool) (le : α → α → Bool) (table : List α) : List α :=
  (table.filter meets).mergeSort le

/-- A table that is kept in the order asked for is not rearranged. -/
theorem select_eq_filter {α : Type} {meets : α → Bool} {le : α → α → Bool} {table : List α}
    (h : table.Pairwise fun a b => le a b = true) : select meets le table = table.filter meets :=
  List.mergeSort_of_pairwise (h.filter _)

namespace Entry

/-- Whether key and row number of an entry are at or below a key and a bound. -/
def isWithin (key : Bytes) (bound : Int64) (e : Entry) : Bool :=
  match Bytes.cmp e.key key with
  | .lt => true
  | .eq => RowStore.number e.seq ≤ bound
  | .gt => false

theorem isWithin_cut {key : Bytes} {seq : UInt64} {e : Entry} (h : e.seq < RowStore.maxSeq) :
    e.isWithin key (RowStore.cut seq) = !e.isAbove key (some seq.toNat) := by
  rw [isWithin, isAbove]
  cases Bytes.cmp e.key key with
  | lt => rfl
  | eq => simp [RowStore.number_le_cut h, ← decide_not]
  | gt => rfl

/-- An index table is kept in the order of its keys and row numbers, the last first. -/
theorem isWithin_of_cmpBack {a b : Entry} (ha : a.seq < RowStore.maxSeq) (hb : b.seq < RowStore.maxSeq)
    (h : cmpBack a b = .lt) : b.isWithin a.key (RowStore.number a.seq) = true := by
  rw [isWithin]
  rcases cmpBack_lt_iff.1 h with h | ⟨h, hseq⟩
  · rw [h]
  · rw [h, Bytes.cmp_self]
    exact decide_eq_true
      ((RowStore.number_le_number (Nat.le_of_lt hb) (Nat.le_of_lt ha)).2 (Nat.le_of_lt hseq))

end Entry

/-! ### Queries -/

namespace RowStore

/-- The entries of an index at or below a key and a seq, in descending order. -/
def entriesBack (s : RowStore) (k : IndexKind) (key : Bytes) (seq : UInt64) : List Entry :=
  select (Entry.isWithin key (cut seq)) (fun a b => b.isWithin a.key (number a.seq))
    (s.indices.get k).toList

/-- The rows above a seq, in ascending order. -/
def rowsAfter (s : RowStore) (seq : UInt64) : List (Nat × Row) :=
  select (fun b => cut seq < number b.1) (fun a b => number a.1 ≤ number b.1) s.rows.entries.reverse

/-- A snapshot of a table store.  Rows that cannot be read are left out. -/
def reader (s : RowStore) : Reader where
  latestSeq := (number s.lastSeq).toUInt64
  event? seq := (s.rows.entries.find? fun b => number b.1 = cut seq).bind fun b => b.2.stored.event?
  back k key seq := (s.entriesBack k key seq).map fun e => (e.key, (number e.seq).toUInt64)
  above seq := (s.rowsAfter seq).filterMap fun b =>
    b.2.stored.event?.map fun e => ((number b.1).toUInt64, e)

/-- Deletes the rows of a number from every table; whether there was an event among them. -/
def delete (s : RowStore) (seq : UInt64) : Bool × RowStore :=
  (s.rows.entries.any fun b => number b.1 = cut seq,
    { s with
      rows := ⟨s.rows.entries.filter fun b => number b.1 ≠ cut seq, s.rows.descending.filter _⟩
      indices := s.indices.map (·.filter fun e => number e.seq ≠ cut seq) })

/-- The row numbers are not used up. -/
structure Spacious (s : RowStore) : Prop where
  row_lt : ∀ b ∈ s.rows.entries, b.1 < maxSeq
  entry_lt : ∀ k, ∀ e ∈ s.indices.get k, e.seq < maxSeq

variable {s : RowStore}

theorem row_le_lastSeq (hs : s.view.Mirrors) {b : Nat × Row} (hb : b ∈ s.rows.entries) :
    b.1 ≤ s.lastSeq := by
  have hrow : s.view.rows.get? b.1 = some b.2.stored := by
    rw [view, SeqMap.get?_map, SeqMap.mem_entries_iff.1 hb]
    rfl
  obtain ⟨e, he⟩ := hs.readable hrow
  exact hs.bounded (View.event?_eq_some_iff.2 (he ▸ hrow))

theorem entry_le_lastSeq (hs : s.view.Mirrors) {k : IndexKind} {x : Entry} (hx : x ∈ s.indices.get k) :
    x.seq ≤ s.lastSeq := by
  obtain ⟨e, he, -⟩ := hs.mem_get_iff.1 hx
  exact hs.bounded he

theorem spacious_of_mirrors (hs : s.view.Mirrors) (hlast : s.lastSeq < maxSeq) : s.Spacious where
  row_lt _ hb := Nat.lt_of_le_of_lt (row_le_lastSeq hs hb) hlast
  entry_lt _ _ hx := Nat.lt_of_le_of_lt (entry_le_lastSeq hs hx) hlast

theorem entriesBack_eq (hs : s.Spacious) {k : IndexKind} {key : Bytes} {seq : UInt64} :
    s.entriesBack k key seq = s.view.back k key (some seq.toNat) := by
  have hordered : (s.indices.get k).toList.Pairwise fun a b =>
      b.isWithin a.key (number a.seq) = true :=
    (s.indices.get k).ordered.imp_of_mem fun ha hb h =>
      Entry.isWithin_of_cmpBack (hs.entry_lt k _ ha) (hs.entry_lt k _ hb) h
  rw [entriesBack, select_eq_filter hordered, View.back, Table.back_eq_filter]
  exact List.filter_congr fun e he => Entry.isWithin_cut (hs.entry_lt k e he)

theorem rowsAfter_eq (hs : ∀ b ∈ s.rows.entries, b.1 ≤ maxSeq) {seq : UInt64} :
    s.rowsAfter seq = s.rows.after seq.toNat := by
  have hordered : s.rows.entries.reverse.Pairwise fun a b => decide (number a.1 ≤ number b.1) = true := by
    rw [List.pairwise_reverse]
    refine s.rows.descending.imp_of_mem fun {a b} ha hb h => decide_eq_true ?_
    exact (number_le_number (hs _ hb) (hs _ ha)).2 (Nat.le_of_lt h)
  rw [rowsAfter, select_eq_filter hordered, SeqMap.after_eq_filter, List.filter_reverse]
  congr 1
  exact List.filter_congr fun b hb => decide_eq_decide.2 (cut_lt_number (hs b hb))

/-- The look-up of a row number finds the row of the seq. -/
theorem find?_eq (hs : s.Spacious) {seq : UInt64} :
    (s.rows.entries.find? fun b => number b.1 = cut seq) = s.rows.entries.find? fun b => b.1 = seq.toNat :=
  List.find?_congr fun b hb => decide_eq_decide.2 (number_eq_cut (hs.row_lt b hb))

theorem reader_eq (hs : s.Spacious) : s.reader = s.view.reader := by
  apply Reader.ext
  · exact Int64.toUInt64_ofNat'
  · funext seq
    have hrow : s.view.event? seq.toNat = (s.rows.get? seq.toNat).bind fun row => row.stored.event? := by
      rw [View.event?, view, SeqMap.get?_map, Option.bind_map]
      rfl
    simp only [reader, View.reader, find?_eq hs, hrow, SeqMap.get?, Option.bind_map]
    rfl
  · funext k key seq
    simp only [reader, View.reader, entriesBack_eq hs, number, Int64.toUInt64_ofNat']
  · funext seq
    have hrows : ∀ b ∈ s.rows.entries, b.1 ≤ maxSeq := fun b hb => Nat.le_of_lt (hs.row_lt b hb)
    simp only [reader, View.reader, rowsAfter_eq hrows, View.eventsAfter, view, SeqMap.after_map,
      List.filterMap_map, List.map_filterMap, number, Int64.toUInt64_ofNat']
    refine List.filterMap_congr fun b _ => ?_
    rw [Function.comp_apply, Option.map_map]
    rfl

/-- The ids that a reader sees are those of the rows that can be read. -/
theorem holds_iff (hs : s.Spacious) {i : Id} :
    s.reader.Holds i ↔ ∃ b ∈ s.rows.entries, ∃ e, b.2.stored = .event e ∧ e.id = i := by
  have hevent : ∀ {seq : UInt64} {e}, s.reader.event? seq = some e ↔
      ∃ row, (seq.toNat, row) ∈ s.rows.entries ∧ row.stored = .event e := by
    intro seq e
    rw [reader_eq hs]
    show s.view.event? seq.toNat = some e ↔ _
    rw [View.event?_eq_some_iff, view, SeqMap.get?_map, Option.map_eq_some_iff]
    exact exists_congr fun row => and_congr_left fun _ => SeqMap.mem_entries_iff.symm
  constructor
  · rintro ⟨seq, e, he, hid⟩
    obtain ⟨row, hb, hrow⟩ := hevent.1 he
    exact ⟨_, hb, e, hrow, hid⟩
  · rintro ⟨b, hb, e, hrow, hid⟩
    have hword : (UInt64.ofNat b.1).toNat = b.1 :=
      UInt64.toNat_ofNat_of_lt' (Nat.lt_trans (hs.row_lt b hb) (by decide))
    exact ⟨.ofNat b.1, e, hevent.2 ⟨b.2, by rw [hword]; exact hb, hrow⟩, hid⟩

/-- A seq without a row has no entries, either. -/
theorem removeSeq_eq_self (hm : s.view.Mirrors) {seq : Nat} (h : s.rows.get? seq = none) :
    s.indices.removeSeq seq = s.indices := by
  apply Indices.ext_get
  intro k
  apply OrderedSet.ext_mem
  intro x
  rw [Indices.mem_get_removeSeq]
  refine ⟨And.left, fun hx => ⟨hx, fun hseq => ?_⟩⟩
  -- an entry of the seq would be one of an event that is stored
  obtain ⟨e, he, -⟩ := hm.mem_get_iff.1 hx
  rw [hseq, View.event?, view, SeqMap.get?_map, h] at he
  cases he

/-- Where a condition selects the rows and entries of a seq, those are deleted. -/
theorem delete_of_number {seq : UInt64} {n : Nat}
    (hrow : ∀ b ∈ s.rows.entries, number b.1 = cut seq ↔ b.1 = n)
    (hentry : ∀ k, ∀ x ∈ s.indices.get k, number x.seq = cut seq ↔ x.seq = n) :
    (s.delete seq).2 = { s with rows := s.rows.erase n, indices := s.indices.removeSeq n } := by
  have hrows : s.rows.entries.filter (fun b => number b.1 ≠ cut seq) = (s.rows.erase n).entries :=
    List.filter_congr fun b hb => decide_eq_decide.2 (not_congr (hrow b hb))
  have hentries : s.indices.map (·.filter fun e => number e.seq ≠ cut seq) = s.indices.removeSeq n := by
    apply Indices.ext_get
    intro k
    apply OrderedSet.ext_mem
    intro x
    rw [Indices.mem_get_removeSeq, Indices.get_map, OrderedSet.mem_filter, decide_eq_true_eq]
    exact and_congr_right fun hx => not_congr (hentry k x hx)
  simp only [delete, hrows, hentries]

/-- A condition selects for deletion what the seq has in each of the tables. -/
theorem delete_eq (hs : s.Spacious) (hm : s.view.Mirrors) {seq : UInt64} :
    s.delete seq = ((s.delete? seq.toNat).isSome, (s.delete? seq.toNat).getD s) := by
  have hany : (s.rows.entries.any fun b => number b.1 = cut seq) = (s.rows.get? seq.toNat).isSome := by
    rw [SeqMap.get?, ← find?_eq hs, Option.isSome_map, List.isSome_find?]
  have hleft : (s.delete seq).2 = _ := delete_of_number (fun b hb => number_eq_cut (hs.row_lt b hb))
    fun k x hx => number_eq_cut (hs.entry_lt k x hx)
  rw [delete?, Option.isSome_map, ← hany]
  refine Prod.ext rfl (hleft.trans ?_)
  cases hget : s.rows.get? seq.toNat with
  | some row => rfl
  | none =>
    rw [SeqMap.erase_eq_self hget, removeSeq_eq_self hm hget]
    rfl

/-- What the rows of a table store show once a condition has selected some for deletion: a seq above all
row numbers stands for the largest of them. -/
theorem view_delete (hm : s.view.Mirrors) (hlast : s.lastSeq ≤ maxSeq) {seq : UInt64} :
    (s.delete seq).2.view = s.view.delete (min seq.toNat maxSeq) := by
  have hleft : (s.delete seq).2 = _ := delete_of_number
    (fun b hb => number_eq_cut_iff (Nat.le_trans (row_le_lastSeq hm hb) hlast))
    fun k x hx => number_eq_cut_iff (Nat.le_trans (entry_le_lastSeq hm hx) hlast)
  simp only [hleft, view, View.delete, SeqMap.map_erase]

end RowStore

end EventRelay
