import EventRelay.Scan.Cursor
import EventRelay.Proofs.Index.KeyOrder
/-!
# The walk of a cursor

What a cursor will bring if its view does not change is a stretch of the index: the entries ahead of it
up to the first that is not one of its stem or is too old.  A batch takes the first entries off that
stretch and leaves the rest, so that the batches of a cursor, one behind the other, are the stretch.

Where a cursor resumes says more than the view does: it lies behind every entry that the cursor has
brought, and within the time range it started with, whatever has been stored or deleted meanwhile.

Main statements: `collect_spec` (a batch is the beginning of the stretch), `IsBehind.absorb` and
`IsWithin.absorb` (what a batch leaves of a cursor's place).
-/

namespace EventRelay

open Std

/-! ### Candidates and entries -/

namespace Candidate

/-- The index entry that a candidate of this stem came from. -/
def entry (stem : Bytes) (x : Candidate) : Entry := ⟨IndexKey.make stem x.createdAt, x.seq⟩

/-- The entries of a stem stand in the order of delivery. -/
theorem cmpBack_entry_iff {stem : Bytes} {x y : Candidate} :
    Entry.cmpBack (x.entry stem) (y.entry stem) = .lt ↔
      y.createdAt < x.createdAt ∨ (y.createdAt = x.createdAt ∧ y.seq < x.seq) := by
  rw [Entry.cmpBack_lt_iff]
  simp only [entry, IndexKey.cmp_make, Nat.compare_eq_lt, UInt64.lt_iff_toNat_lt]
  constructor
  · rintro (h | ⟨hkey, hseq⟩)
    · exact .inl h
    · exact .inr ⟨IndexKey.make_inj hkey, hseq⟩
  · rintro (h | ⟨htime, hseq⟩)
    · exact .inl h
    · exact .inr ⟨by rw [htime], hseq⟩

theorem comesFirst_of_cmpBack {stem : Bytes} {x y : Candidate}
    (h : Entry.cmpBack (x.entry stem) (y.entry stem) = .lt) : comesFirst x y = true := by
  simp only [comesFirst, Bool.or_eq_true, Bool.and_eq_true, decide_eq_true_eq]
  rcases cmpBack_entry_iff.1 h with h | ⟨htime, hseq⟩
  · exact .inl h
  · exact .inr ⟨htime.symm, Nat.le_of_lt hseq⟩

end Candidate

namespace Cursor

/-- Whether a walk under a stem takes an entry: it is one of the stem and not too old. -/
def takes (stem : Bytes) (since : UInt64) (e : Entry) : Bool :=
  IndexKey.ownedBy stem e.key && (IndexKey.time? e.key).any fun time => since ≤ time

/-- The candidate that a cursor makes of an entry. -/
def toCandidate (number : Nat) (e : Entry) : Candidate :=
  ⟨e.seq, (IndexKey.time? e.key).getD 0, number⟩

theorem takes_iff {stem : Bytes} {since : UInt64} {e : Entry} :
    takes stem since e = true ↔ ∃ time, e.key = IndexKey.make stem time ∧ since ≤ time := by
  rw [takes, Bool.and_eq_true, IndexKey.ownedBy_iff_exists]
  constructor
  · rintro ⟨⟨time, hkey⟩, htime⟩
    rw [hkey, IndexKey.time?_make] at htime
    exact ⟨time, hkey, by simpa using htime⟩
  · rintro ⟨time, hkey, htime⟩
    exact ⟨⟨time, hkey⟩, by simpa [hkey] using htime⟩

theorem entry_toCandidate {stem : Bytes} {since : UInt64} {number : Nat} {e : Entry}
    (h : takes stem since e = true) : (toCandidate number e).entry stem = e := by
  obtain ⟨key, seq⟩ := e
  obtain ⟨time, rfl, -⟩ := takes_iff.1 h
  simp [toCandidate, Candidate.entry]

/-! ### One batch -/

/-- What a walk takes, and where it stops. -/
theorem gather_spec {stem : Bytes} {since : UInt64} {number limit : Nat} {l : List Entry} :
    ∃ passed : List Entry,
      (gather stem since number limit l).candidates = passed.map (toCandidate number)
      ∧ (∀ e ∈ passed, takes stem since e = true)
      ∧ ((gather stem since number limit l).next = none ∧ l.takeWhile (takes stem since) = passed
        ∨ ∃ e rest, (gather stem since number limit l).next = some e ∧ l = passed ++ e :: rest
          ∧ passed.length = limit) := by
  induction l generalizing limit with
  | nil => exact ⟨[], by cases limit <;> simp [gather]⟩
  | cons x rest ih =>
    cases limit with
    | zero => exact ⟨[], by simp [gather], by simp, .inr ⟨x, rest, by simp [gather]⟩⟩
    | succ limit =>
      by_cases howned : IndexKey.ownedBy stem x.key = true
      · obtain ⟨time, hkey⟩ := IndexKey.ownedBy_iff_exists.1 howned
        have htime : IndexKey.time? x.key = some time := by rw [hkey, IndexKey.time?_make]
        by_cases hold : time < since
        · -- too old: the walk ends in front of the entry
          have htakes : takes stem since x = false := by
            simpa [takes, htime] using fun _ => hold
          refine ⟨[], ?_, by simp, .inl ⟨?_, by simp [htakes]⟩⟩
          · simp [gather, howned, htime, hold]
          · simp [gather, howned, htime, hold]
        · obtain ⟨passed, hcands, hall, hend⟩ := @ih limit
          have htakes : takes stem since x = true := by
            simpa [takes, howned, htime] using UInt64.not_lt.1 hold
          have hx : toCandidate number x = ⟨x.seq, time, number⟩ := by
            simp [toCandidate, htime]
          refine ⟨x :: passed, ?_, List.forall_mem_cons.2 ⟨htakes, hall⟩, ?_⟩
          · simp [gather, howned, htime, hold, hcands, hx]
          · rcases hend with ⟨hnext, htake⟩ | ⟨e, tail, hnext, hl, hlen⟩
            · refine .inl ⟨by simp [gather, howned, htime, hold, hnext], ?_⟩
              simp [htakes, htake]
            · refine .inr ⟨e, tail, by simp [gather, howned, htime, hold, hnext], ?_, ?_⟩
              · rw [hl, List.cons_append]
              · simp [hlen]
      · have htakes : takes stem since x = false := by simp [takes, howned]
        refine ⟨[], ?_, by simp, .inl ⟨?_, by simp [htakes]⟩⟩
        · simp [gather, howned]
        · simp [gather, howned]

/-- The entries that a cursor will take from a view that does not change. -/
def coming (c : Cursor) (v : View) (k : IndexKind) (since : UInt64) : List Entry :=
  (c.ahead v k).takeWhile (takes c.stem since)

@[simp] theorem stem_absorb {c : Cursor} {b : Batch} : (c.absorb b).stem = c.stem := by
  rw [absorb]
  split <;> rfl

@[simp] theorem outstanding_absorb {c : Cursor} {b : Batch} :
    (c.absorb b).outstanding = c.outstanding + b.candidates.length := by
  rw [absorb]
  split <;> rfl

theorem isActive_absorb {c : Cursor} {b : Batch} : (c.absorb b).isActive = b.next.isSome := by
  rw [absorb]
  split
  · rename_i hnext
    simp [isActive, hnext]
  · rename_i hnext
    simp [isActive, hnext]

theorem takes_of_mem_coming {c : Cursor} {v : View} {k : IndexKind} {since : UInt64} {e : Entry}
    (h : e ∈ c.coming v k since) : takes c.stem since e = true :=
  List.all_eq_true.1 (List.all_takeWhile (l := c.ahead v k)) e h

theorem mem_get_of_mem_ahead {c : Cursor} {v : View} {k : IndexKind} {e : Entry}
    (h : e ∈ c.ahead v k) : e ∈ v.indices.get k := by
  rw [ahead] at h
  split at h
  · cases h
  · exact (Table.mem_back.1 h).1

theorem mem_ahead_of_mem_coming {c : Cursor} {v : View} {k : IndexKind} {since : UInt64} {e : Entry}
    (h : e ∈ c.coming v k since) : e ∈ c.ahead v k :=
  (List.takeWhile_sublist _).mem h

theorem pairwise_ahead {c : Cursor} {v : View} {k : IndexKind} :
    (c.ahead v k).Pairwise fun a b => Entry.cmpBack a b = .lt := by
  rw [ahead]
  split
  · exact .nil
  · exact (v.indices.get k).ordered.sublist (List.dropWhile_sublist _)

theorem coming_of_not_isActive {c : Cursor} {v : View} {k : IndexKind} {since : UInt64}
    (h : c.isActive = false) : c.coming v k since = [] := by
  have hkey : c.resumeKey = none := by simpa [isActive] using h
  simp [coming, ahead, hkey]

/-- What a batch that was read says of the cursor: an exhausted one reads nothing, and any other reads
what lies ahead. -/
theorem eq_of_collect {c : Cursor} {v : View} {k : IndexKind} {since : UInt64} {number limit : Nat}
    {f f' : Faults} {b : Batch} (h : c.collect v f k since number limit = (.ok b, f')) :
    (c.isActive = false ∧ b = ⟨[], none, 0⟩)
      ∨ (c.isActive = true ∧ b = gather c.stem since number limit (c.ahead v k)) := by
  rw [collect] at h
  split at h
  · rename_i hactive
    rw [Faults.read] at h
    split at h
    · exact .inr ⟨hactive, (Except.ok.inj (Prod.mk.inj h).1).symm⟩
    · cases (Prod.mk.inj h).1
  · rename_i hactive
    exact .inl ⟨by simpa using hactive, (Except.ok.inj (Prod.mk.inj h).1).symm⟩

/-- A cursor behind a batch has the rest of what lay ahead in front of it. -/
theorem ahead_absorb {c : Cursor} {v : View} {k : IndexKind} {b : Batch} {e : Entry}
    {passed rest : List Entry} (hnext : b.next = some e) (hl : c.ahead v k = passed ++ e :: rest) :
    (c.absorb b).ahead v k = e :: rest := by
  have hkey : ∃ key, c.resumeKey = some key := by
    cases hkey : c.resumeKey with
    | none => simp [ahead, hkey] at hl
    | some key => exact ⟨key, rfl⟩
  obtain ⟨key, hkey⟩ := hkey
  have hsplit : (v.indices.get k).toList =
      ((v.indices.get k).toList.takeWhile (Entry.isAbove key c.resumeSeq) ++ passed)
        ++ e :: rest := by
    rw [List.append_assoc, ← hl]
    simp [ahead, hkey, View.back, Table.back]
  simp only [ahead, absorb, hnext, View.back]
  exact Table.back_of_append hsplit

/-- A batch is the beginning of what is coming, and the rest is still coming.  A batch behind which the
cursor goes on is a full one. -/
theorem collect_spec {c : Cursor} {v : View} {k : IndexKind} {since : UInt64} {number limit : Nat}
    {f f' : Faults} {b : Batch} (h : c.collect v f k since number limit = (.ok b, f')) :
    ∃ passed : List Entry,
      b.candidates = passed.map (toCandidate number)
      ∧ c.coming v k since = passed ++ (c.absorb b).coming v k since
      ∧ (b.next.isSome → passed.length = limit)
      ∧ ∀ e, b.next = some e → ∃ rest, c.ahead v k = passed ++ e :: rest := by
  rcases eq_of_collect h with ⟨hactive, rfl⟩ | ⟨-, hb⟩
  · refine ⟨[], rfl, ?_, by simp, by simp⟩
    rw [coming_of_not_isActive hactive, coming_of_not_isActive (by simp [isActive_absorb])]
    rfl
  · obtain ⟨passed, hcands, hall, hend⟩ :=
      @gather_spec c.stem since number limit (c.ahead v k)
    rw [← hb] at hcands hend
    refine ⟨passed, hcands, ?_⟩
    rcases hend with ⟨hnext, htake⟩ | ⟨e, rest, hnext, hl, hlen⟩
    · refine ⟨?_, by simp [hnext], by simp [hnext]⟩
      rw [coming, htake, coming_of_not_isActive (by simp [isActive_absorb, hnext]), List.append_nil]
    · refine ⟨?_, fun _ => hlen, ?_⟩
      · rw [coming, coming, ahead_absorb hnext hl, stem_absorb, hl,
          List.takeWhile_append_of_pos hall]
      · intro e' he'
        rw [hnext] at he'
        cases he'
        exact ⟨rest, hl⟩

/-! ### The place of a cursor -/

/-- Whether a cursor goes on strictly behind a candidate, or not at all. -/
def IsBehind (c : Cursor) (x : Candidate) : Prop :=
  ∀ key, c.resumeKey = some key →
    ∃ seq, c.resumeSeq = some seq ∧ Entry.cmpBack (x.entry c.stem) ⟨key, seq⟩ = .lt

/-- Whether a cursor goes on at or below the last key of its stem that is not newer than `upTo`. -/
def IsWithin (c : Cursor) (upTo : UInt64) : Prop :=
  ∀ key, c.resumeKey = some key → Bytes.cmp key (IndexKey.make c.stem upTo) ≠ .gt

theorem isWithin_start {stem : Bytes} {upTo : UInt64} : (start stem upTo).IsWithin upTo := by
  intro key hkey
  cases hkey
  simp [Bytes.cmp_self, start]

/-- What lies ahead of a cursor that has passed a candidate comes behind the candidate. -/
theorem IsBehind.cmpBack_of_mem_ahead {c : Cursor} {x : Candidate} (h : c.IsBehind x) {v : View}
    {k : IndexKind} {e : Entry} (he : e ∈ c.ahead v k) : Entry.cmpBack (x.entry c.stem) e = .lt := by
  cases hkey : c.resumeKey with
  | none => simp [ahead, hkey] at he
  | some key =>
    obtain ⟨seq, hseq, hx⟩ := h key hkey
    simp only [ahead, hkey, hseq] at he
    have habove := (Table.mem_back.1 he).2
    cases hcmp : Entry.cmpBack e ⟨key, seq⟩ with
    | lt => rw [Entry.isAbove_iff_cmpBack (e := ⟨key, seq⟩) |>.2 hcmp] at habove; cases habove
    | eq => cases LawfulEqCmp.eq_of_compare hcmp; exact hx
    | gt => exact TransCmp.lt_trans hx (OrientedCmp.gt_iff_lt.1 hcmp)

/-- A cursor goes on behind what it has brought. -/
theorem IsBehind.absorb {c : Cursor} {v : View} {k : IndexKind} {since : UInt64} {number limit : Nat}
    {f f' : Faults} {b : Batch} (h : c.collect v f k since number limit = (.ok b, f'))
    {x : Candidate} (hx : x ∈ b.candidates ∨ c.IsBehind x) : (c.absorb b).IsBehind x := by
  intro key hkey
  obtain ⟨passed, hcands, hcoming, -, hnext⟩ := collect_spec h
  cases hb : b.next with
  | none => simp [Cursor.absorb, hb] at hkey
  | some e =>
    obtain ⟨rest, hahead⟩ := hnext e hb
    simp only [Cursor.absorb, hb, Option.some.injEq] at hkey
    refine ⟨e.seq, by simp [Cursor.absorb, hb], ?_⟩
    rw [stem_absorb, ← hkey]
    rcases hx with hx | hx
    · rw [hcands] at hx
      obtain ⟨y, hy, rfl⟩ := List.mem_map.1 hx
      have htakes := takes_of_mem_coming (hcoming ▸ List.mem_append_left _ hy)
      have hord := pairwise_ahead (c := c) (v := v) (k := k)
      rw [hahead] at hord
      rw [entry_toCandidate htakes]
      exact (List.pairwise_append.1 hord).2.2 y hy e (by simp)
    · exact hx.cmpBack_of_mem_ahead (hahead ▸ by simp : e ∈ c.ahead v k)

/-- What lies ahead of a cursor is not newer than the cursor's range. -/
theorem IsWithin.of_mem_ahead {c : Cursor} {upTo : UInt64} (h : c.IsWithin upTo) {v : View}
    {k : IndexKind} {e : Entry} (he : e ∈ c.ahead v k) :
    Bytes.cmp e.key (IndexKey.make c.stem upTo) ≠ .gt := by
  cases hkey : c.resumeKey with
  | none => simp [ahead, hkey] at he
  | some key =>
    -- the entry is at or in front of the key to go on at, and that key is within the range
    simp only [ahead, hkey] at he
    have habove := (Table.mem_back.1 he).2
    have hle : Bytes.cmp e.key key ≠ .gt := by
      intro hgt
      simp [Entry.isAbove, hgt] at habove
    exact Bytes.cmp_ne_gt_trans hle (h key hkey)

theorem IsWithin.absorb {c : Cursor} {v : View} {k : IndexKind} {since : UInt64} {number limit : Nat}
    {f f' : Faults} {b : Batch} (h : c.collect v f k since number limit = (.ok b, f')) {upTo : UInt64}
    (hc : c.IsWithin upTo) : (c.absorb b).IsWithin upTo := by
  intro key hkey
  obtain ⟨passed, -, -, -, hnext⟩ := collect_spec h
  cases hb : b.next with
  | none => simp [Cursor.absorb, hb] at hkey
  | some e =>
    obtain ⟨rest, hahead⟩ := hnext e hb
    simp only [Cursor.absorb, hb, Option.some.injEq] at hkey
    rw [stem_absorb, ← hkey]
    exact hc.of_mem_ahead (hahead ▸ by simp : e ∈ c.ahead v k)

end Cursor

end EventRelay
