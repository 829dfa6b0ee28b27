import EventRelay.Proofs.Scan.Plans
import EventRelay.Proofs.Store.Damage
/-!
# The time of a seq

A seq is given out once, and the keys under which it is listed carry the time of the one event that got it.
So all views of a store, at whatever time it is looked at, list a seq under the same time, also when its
event has been deleted or its row damaged meanwhile.

Main statement: `History.exists_dates`.
-/

namespace EventRelay

namespace View

/-- Whether the index tables of a view list a seq only under the time that `dates` gives it, and no seq
above the last one given out. -/
structure IsDated (v : View) (dates : Nat → UInt64) : Prop where
  exists_stem : ∀ {k x}, x ∈ v.indices.get k → ∃ stem, x.key = IndexKey.make stem (dates x.seq)
  seq_le : ∀ {k x}, x ∈ v.indices.get k → x.seq ≤ v.latestSeq

variable {v v' : View} {dates dates' : Nat → UInt64}

theorem isDated_empty : empty.IsDated dates :=
  ⟨fun hx => absurd hx not_mem_empty, fun hx => absurd hx not_mem_empty⟩

/-- Seqs that have not been given out may have any time. -/
theorem IsDated.congr (h : v.IsDated dates) (hdates : ∀ n ≤ v.latestSeq, dates' n = dates n) :
    v.IsDated dates' where
  exists_stem {k x} hx := by
    rw [hdates _ (h.seq_le hx)]
    exact h.exists_stem hx
  seq_le := h.seq_le

theorem IsDated.of_subset (h : v.IsDated dates) (hlatest : v'.latestSeq = v.latestSeq)
    (hsub : ∀ {k x}, x ∈ v'.indices.get k → x ∈ v.indices.get k) : v'.IsDated dates where
  exists_stem hx := h.exists_stem (hsub hx)
  seq_le hx := hlatest ▸ h.seq_le (hsub hx)

/-- The next seq gets the time of its event. -/
theorem IsDated.insert (h : v.IsDated dates) (e : Event) :
    (v.insert e).IsDated fun n => if n = v.latestSeq + 1 then e.createdAt else dates n := by
  have hadd : ∀ {k x}, x ∈ (v.insert e).indices.get k ↔
      x ∈ v.indices.get k ∨ (x.seq = v.latestSeq + 1 ∧ (k, x.key) ∈ e.indexEntries) :=
    Indices.mem_get_add
  constructor
  · intro k x hx
    rcases hadd.1 hx with hx | ⟨hseq, hentry⟩
    · have hne : x.seq ≠ v.latestSeq + 1 := Nat.ne_of_lt (Nat.lt_succ_of_le (h.seq_le hx))
      simp only [if_neg hne]
      exact h.exists_stem hx
    · obtain ⟨stem, -, hkey⟩ := Event.mem_indexEntries_iff.1 hentry
      simp only [if_pos hseq]
      exact ⟨stem, hkey⟩
  · intro k x hx
    show x.seq ≤ v.latestSeq + 1
    rcases hadd.1 hx with hx | ⟨hseq, -⟩
    · exact Nat.le_succ_of_le (h.seq_le hx)
    · exact Nat.le_of_eq hseq

/-- A key that lists a seq carries its time. -/
theorem IsDated.time_eq (h : v.IsDated dates) {k : IndexKind} {stem : Bytes} {time : UInt64} {seq : Nat}
    (hx : ⟨IndexKey.make stem time, seq⟩ ∈ v.indices.get k) : time = dates seq := by
  obtain ⟨other, hkey⟩ := h.exists_stem hx
  have htime := congrArg IndexKey.time? hkey
  rw [IndexKey.time?_make, IndexKey.time?_make] at htime
  exact Option.some.inj htime

end View

namespace Store

variable {s t : Store} {dates : Nat → UInt64}

/-- A deletion lists nothing new. -/
theorem mem_get_of_delete? {seq : Nat} (h : s.delete? seq = some t) {k : IndexKind} {x : Entry}
    (hx : x ∈ t.view.indices.get k) : x ∈ s.view.indices.get k := by
  cases s with
  | memory s =>
    obtain ⟨t, ht, rfl⟩ := Option.map_eq_some_iff.1 h
    obtain ⟨e, -, rfl⟩ := Option.map_eq_some_iff.1 ht
    exact (Indices.mem_get_remove.1 hx).1
  | rows s =>
    obtain ⟨t, ht, rfl⟩ := Option.map_eq_some_iff.1 h
    obtain ⟨row, -, rfl⟩ := Option.map_eq_some_iff.1 ht
    exact (Indices.mem_get_removeSeq.1 hx).1

theorem latestSeq_of_delete? {seq : Nat} (h : s.delete? seq = some t) :
    t.view.latestSeq = s.view.latestSeq := by
  cases s with
  | memory s =>
    obtain ⟨t, ht, rfl⟩ := Option.map_eq_some_iff.1 h
    obtain ⟨e, -, rfl⟩ := Option.map_eq_some_iff.1 ht
    rfl
  | rows s =>
    obtain ⟨t, ht, rfl⟩ := Option.map_eq_some_iff.1 h
    obtain ⟨row, -, rfl⟩ := Option.map_eq_some_iff.1 ht
    rfl

/-- Overwriting a cell touches neither the index tables nor the seqs. -/
theorem overwrite_eq {rows rows' : RowStore} {seq changed : Nat} {column : Column} {cell : Cell}
    (h : rows.overwrite seq column cell = .ok (changed, rows')) :
    rows'.indices = rows.indices ∧ rows'.lastSeq = rows.lastSeq := by
  rw [RowStore.overwrite] at h
  split at h
  · cases h
    exact ⟨rfl, rfl⟩
  · simp only at h
    split at h
    · cases h
    · split at h
      · cases h
      · cases h
        exact ⟨rfl, rfl⟩

/-- Whatever becomes of a store, the seqs that have been given out keep their times. -/
theorem Later.exists_dates (h : Later s t) (hs : s.view.IsDated dates) :
    s.view.latestSeq ≤ t.view.latestSeq
      ∧ ∃ dates', (∀ n ≤ s.view.latestSeq, dates' n = dates n) ∧ t.view.IsDated dates' := by
  induction h with
  | refl => exact ⟨Nat.le_refl _, dates, fun _ _ => rfl, hs⟩
  | @insert t u e text seq _ hins ih =>
    obtain ⟨hle, dates', hsame, ht⟩ := ih
    -- an event that is refused leaves the view as it was
    rcases view_insertWithText hins with hview | hview
    · rw [hview]
      exact ⟨hle, dates', hsame, ht⟩
    · rw [hview]
      refine ⟨Nat.le_succ_of_le hle, _, fun n hn => ?_, ht.insert e⟩
      have hne : n ≠ t.view.latestSeq + 1 := Nat.ne_of_lt (Nat.lt_succ_of_le (Nat.le_trans hn hle))
      simp only [if_neg hne]
      exact hsame n hn
  | delete _ hdel ih =>
    obtain ⟨hle, dates', hsame, ht⟩ := ih
    have hlatest := latestSeq_of_delete? hdel
    exact ⟨hlatest ▸ hle, dates', hsame, ht.of_subset hlatest (mem_get_of_delete? hdel)⟩
  | @overwrite rows rows' seq column cell changed _ hover ih =>
    obtain ⟨hle, dates', hsame, ht⟩ := ih
    obtain ⟨hindices, hlast⟩ := overwrite_eq hover
    refine ⟨Nat.le_trans hle (Nat.le_of_eq hlast.symm), dates', hsame, ht.of_subset hlast ?_⟩
    intro k x hx
    have hget : x ∈ rows'.indices.get k := hx
    rw [hindices] at hget
    exact hget

theorem Seen.exists_dates {vs : List View} (h : Seen s vs) (hs : s.view.IsDated dates) :
    ∃ dates', (∀ n ≤ s.view.latestSeq, dates' n = dates n) ∧ ∀ v ∈ vs, v.IsDated dates' := by
  induction h generalizing dates with
  | nil => exact ⟨dates, fun _ _ => rfl, nofun⟩
  | cons hlater _ ih =>
    obtain ⟨hle, dates', hsame, ht⟩ := hlater.exists_dates hs
    -- later times may differ only where the views before have no seq yet
    obtain ⟨dates'', hsame', hrest⟩ := ih ht
    refine ⟨dates'', fun n hn => ?_, List.forall_mem_cons.2 ⟨ht.congr hsame', hrest⟩⟩
    rw [hsame' n (Nat.le_trans hn hle), hsame n hn]

/-- Every seq has one time in all views of a store. -/
theorem History.exists_dates {vs : List View} (h : History vs) : ∃ dates, ∀ v ∈ vs, v.IsDated dates := by
  obtain ⟨s, hs, hseen⟩ := h
  have hempty : s.view.IsDated fun _ => 0 := by
    rcases hs with rfl | rfl <;> exact View.isDated_empty
  obtain ⟨dates, -, hdated⟩ := hseen.exists_dates hempty
  exact ⟨dates, hdated⟩

end Store

end EventRelay
