import EventRelay.Proofs.Scan.Agenda
import EventRelay.Proofs.Scan.Stretch
import EventRelay.Proofs.Store.Content
/-!
# Scans of a changing store

While a scan pauses, events may be stored.  They get seqs above the watermark, and as long as no longer
stem is about they come between no two entries of a stem that a cursor has still to walk.  So what is
awaited of the scan is the same in the later view.  Where events are deleted, too, what is awaited of
the others stays awaited.

Main statements: `View.agree_insert` (a store that grows stays the same up to its last seq),
`Consistent.awaited_eq_of_agree` (what is awaited depends on the view up to the watermark only) and
`Consistent.mem_awaited_of_event?` (what is awaited of an event that stays).
-/

namespace EventRelay

namespace View

/-- Whether two views show the same events and entries up to a seq. -/
structure Agree (v v' : View) (seq : Nat) : Prop where
  event?_eq : ∀ n, n ≤ seq → v'.event? n = v.event? n
  entries_eq : ∀ k, ((v'.indices.get k).filter fun e => e.seq ≤ seq) =
    (v.indices.get k).filter fun e => e.seq ≤ seq

theorem Agree.rfl {v : View} {seq : Nat} : v.Agree v seq := ⟨fun _ _ => .refl _, fun _ => .refl _⟩

theorem Agree.trans {a b c : View} {seq : Nat} (h : a.Agree b seq) (h' : b.Agree c seq) :
    a.Agree c seq where
  event?_eq n hn := (h'.event?_eq n hn).trans (h.event?_eq n hn)
  entries_eq k := (h'.entries_eq k).trans (h.entries_eq k)

/-- An event that is stored gets a new seq. -/
theorem agree_insert {v : View} {e : Event} {seq : Nat} (hseq : seq ≤ v.latestSeq) :
    v.Agree (v.insert e) seq where
  event?_eq n hn := by
    rw [event?_insert, if_neg]
    omega
  entries_eq k := by
    apply OrderedSet.ext_mem
    intro x
    have hadd : x ∈ (v.insert e).indices.get k ↔
        x ∈ v.indices.get k ∨ (x.seq = v.latestSeq + 1 ∧ (k, x.key) ∈ e.indexEntries) :=
      Indices.mem_get_add
    rw [OrderedSet.mem_filter, OrderedSet.mem_filter, hadd]
    constructor
    · rintro ⟨hx | ⟨hx, -⟩, hle⟩
      · exact ⟨hx, hle⟩
      · have := of_decide_eq_true hle
        omega
    · rintro ⟨hx, hle⟩
      exact ⟨.inl hx, hle⟩

end View

namespace Scan

/-- Whether no foreign key begins with one of the stems that a scan walks. -/
def IsExact (s : Scan) (v : View) : Prop := ∀ c ∈ s.cursors, v.IsExact s.index c.stem

theorem Continues.isExact_iff {s s' : Scan} (h : s'.Continues s) (v : View) :
    s'.IsExact v ↔ s.IsExact v := by
  have hindex : s'.index = s.index := congrArg Plan.index h.2
  have hstems : s'.cursors.map Cursor.stem = s.cursors.map Cursor.stem := congrArg Plan.stems h.2
  have key : ∀ t : Scan, t.IsExact v ↔ ∀ stem ∈ t.cursors.map Cursor.stem, v.IsExact t.index stem := by
    intro t
    simp [IsExact]
  rw [key, key, hstems, hindex]

/-- What the cursors will bring up to a seq depends on the view up to that seq only. -/
theorem Consistent.coming_eq_of_agree {s : Scan} (hs : s.Consistent) {v v' : View} {seq : Nat}
    (hv : s.IsExact v) (hv' : s.IsExact v') (h : v.Agree v' seq) :
    ((s.coming v').filter fun x => x.seq ≤ seq) = (s.coming v).filter fun x => x.seq ≤ seq := by
  have hcursor : ∀ i c, s.cursors[i]? = some c →
      ((s.comingOf v' i c).filter fun x => x.seq ≤ seq)
        = (s.comingOf v i c).filter fun x => x.seq ≤ seq := by
    intro i c hc
    have hmem := List.mem_of_getElem? hc
    have hentries := congrArg OrderedSet.toList (h.entries_eq s.index)
    simp only [OrderedSet.filter] at hentries
    -- in an exact view nothing ends a walk early, so it is a filter of the whole index
    rw [comingOf, comingOf, Cursor.coming_eq_filter (hv c hmem) (hs.within hc),
      Cursor.coming_eq_filter (hv' c hmem) (hs.within hc), List.filter_map, List.filter_map,
      List.filter_filter, List.filter_filter]
    have hswap : ∀ l : List Entry,
        (l.filter fun e => ((fun x : Candidate => decide (x.seq ≤ seq)) ∘ Cursor.toCandidate i) e
            && (Cursor.takes c.stem s.filter.since e && c.isAhead e))
          = (l.filter fun e => decide (e.seq ≤ seq)).filter fun e =>
              Cursor.takes c.stem s.filter.since e && c.isAhead e := by
      intro l
      rw [List.filter_filter]
      apply List.filter_congr
      intro e _
      exact Bool.and_comm _ _
    rw [hswap, hswap, hentries]
  rw [coming, coming, List.filter_flatten, List.filter_flatten]
  congr 1
  apply List.ext_getElem?
  intro i
  rw [List.getElem?_map, List.getElem?_map, List.getElem?_mapIdx, List.getElem?_mapIdx]
  cases hc : s.cursors[i]? with
  | none => rfl
  | some c =>
    simp only [Option.map_some, Option.some.injEq]
    exact hcursor i c hc

theorem Consistent.awaited_eq_of_agree {s : Scan} (hs : s.Consistent) {v v' : View} {seq : Nat}
    (hv : s.IsExact v) (hv' : s.IsExact v') (h : v.Agree v' seq) :
    s.awaited v' seq = s.awaited v seq := by
  -- sorting and filtering commute, so the seqs above `seq` can be left out first
  have hbelow : ∀ u : View, ((s.agenda u).filter fun x => decide (x.seq ≤ seq)) =
      Stamp.sort (((s.buffer.filter fun x => x.seq ≤ seq) ++ (s.coming u).filter fun x => x.seq ≤ seq).map
        Candidate.stamp) := by
    intro u
    rw [agenda, Stamp.filter_sort, List.filter_map, List.filter_append]
    rfl
  have hagenda : ((s.agenda v').filter fun x => decide (x.seq ≤ seq))
      = (s.agenda v).filter fun x => decide (x.seq ≤ seq) := by
    rw [hbelow, hbelow, hs.coming_eq_of_agree hv hv' h]
  have hverdict : ∀ x : Stamp, x.seq ≤ seq → s.verdict v' x = s.verdict v x := by
    intro x hx
    rw [verdict, verdict, h.event?_eq _ hx]
  have hsplit : ∀ u : View,
      s.awaited u seq = (((s.agenda u).filter fun x => decide (x.seq ≤ seq)).filter (s.verdict u)).map
        Stamp.seq := by
    intro u
    rw [awaited, List.filter_filter]
    congr 2
    funext x
    exact Bool.and_comm _ _
  rw [hsplit, hsplit, hagenda]
  congr 1
  apply List.filter_congr
  intro x hx
  exact hverdict x (of_decide_eq_true (List.mem_filter.1 hx).2)

/-! ### Deletions -/

/-- What a cursor will bring of an event that is there in two views is the same in both. -/
theorem Consistent.mem_coming_of_event? {s : Scan} (hs : s.Consistent) {v v' : View}
    (hv : s.IsExact v) (hv' : s.IsExact v') (hm : v.Mirrors) (hm' : v'.Mirrors) {x : Candidate}
    (hsame : v'.event? x.seq = v.event? x.seq) (hx : x ∈ s.coming v) : x ∈ s.coming v' := by
  obtain ⟨i, c, hc, e, he, rfl⟩ := mem_coming.1 hx
  have hmem := List.mem_of_getElem? hc
  rw [Cursor.coming_eq_filter (hv c hmem) (hs.within hc), List.mem_filter] at he
  refine mem_coming.2 ⟨i, c, hc, e, ?_, rfl⟩
  rw [Cursor.coming_eq_filter (hv' c hmem) (hs.within hc), List.mem_filter]
  refine ⟨?_, he.2⟩
  obtain ⟨e', hevent, hentry⟩ := hm.mem_get_iff.1 he.1
  exact hm'.mem_get_iff.2 ⟨e', hsame.trans hevent, hentry⟩

/-- What is awaited of an event stays awaited in a view where the event is still there, whatever else has
been stored or deleted. -/
theorem Consistent.mem_awaited_of_event? {s : Scan} (hs : s.Consistent) {v v' : View}
    (hv : s.IsExact v) (hv' : s.IsExact v') (hm : v.Mirrors) (hm' : v'.Mirrors) {seq w : Nat}
    (hsame : v'.event? seq = v.event? seq) (hseq : seq ∈ s.awaited v w) : seq ∈ s.awaited v' w := by
  obtain ⟨x, hx, rfl⟩ := List.mem_map.1 hseq
  obtain ⟨hagenda, htest⟩ := List.mem_filter.1 hx
  obtain ⟨c, hc, rfl⟩ := List.mem_map.1 (Stamp.mem_sort.1 hagenda)
  refine List.mem_map_of_mem (List.mem_filter.2 ⟨Stamp.mem_sort.2 (List.mem_map_of_mem ?_), ?_⟩)
  · rcases List.mem_append.1 hc with hc | hc
    · exact List.mem_append_left _ hc
    · exact List.mem_append_right _ (hs.mem_coming_of_event? hv hv' hm hm' hsame hc)
  · have hverdict : s.verdict v' c.stamp = s.verdict v c.stamp := by
      rw [verdict, verdict, hsame]
    rw [hverdict]
    exact htest

end Scan

end EventRelay
