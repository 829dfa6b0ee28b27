import EventRelay.Scan
import EventRelay.Proofs.Scan.Walk
/-!
# Consistent scans

What a scan always keeps true of its buffer and its cursors, whatever view each step is taken against:
every cursor counts its candidates in the buffer, none that can go on is without one, each goes on
behind all of its candidates, and once all are seeded the buffer is in the order of delivery.

Main statements: `Consistent.seed` and `Consistent.pop` (the two changes of a scan keep it consistent)
and `Consistent.comesFirst` (the first candidate of the buffer comes before all that the cursors will
still bring).
-/

namespace EventRelay

namespace Candidate

theorem comesFirst_trans (x y z : Candidate) (hxy : comesFirst x y = true)
    (hyz : comesFirst y z = true) : comesFirst x z = true := by
  simp only [comesFirst, Bool.or_eq_true, Bool.and_eq_true, decide_eq_true_eq,
    UInt64.lt_iff_toNat_lt, ← UInt64.toNat_inj] at *
  omega

theorem comesFirst_total (x y : Candidate) : (comesFirst x y || comesFirst y x) = true := by
  simp only [comesFirst, Bool.or_eq_true, Bool.and_eq_true, decide_eq_true_eq,
    UInt64.lt_iff_toNat_lt, ← UInt64.toNat_inj]
  omega

end Candidate

namespace Scan

/-- What a scan keeps true. -/
structure Consistent (s : Scan) : Prop where
  batch_pos : 0 < s.initialBatch
  seeded_le : s.seeded ≤ s.cursors.length
  /-- Only cursors that have been seeded have brought candidates. -/
  numbered : ∀ x ∈ s.buffer, x.cursor < s.seeded
  counted : ∀ {i : Nat} {c : Cursor}, s.cursors[i]? = some c → c.outstanding = s.buffer.countP fun x => x.cursor = i
  /-- A cursor that can go on is represented in the buffer. -/
  represented : ∀ {i : Nat} {c : Cursor}, i < s.seeded → s.cursors[i]? = some c → c.isActive = true →
    0 < c.outstanding
  ordered : s.seeded = s.cursors.length →
    s.buffer.Pairwise fun x y => Candidate.comesFirst x y = true
  behind : ∀ {i : Nat} {c : Cursor}, s.cursors[i]? = some c → ∀ x ∈ s.buffer, x.cursor = i → c.IsBehind x
  within : ∀ {i : Nat} {c : Cursor}, s.cursors[i]? = some c → c.IsWithin s.filter.upTo

/-- The plan that a scan follows. -/
def plan (s : Scan) : Plan := ⟨s.index, s.cursors.map Cursor.stem, s.indexOnly⟩

/-- Whether a scan goes on with what another has begun. -/
def Continues (s' s : Scan) : Prop := s'.filter = s.filter ∧ s'.plan = s.plan

theorem Continues.rfl {s : Scan} : s.Continues s := ⟨.refl _, .refl _⟩

theorem Continues.trans {a b c : Scan} (h : a.Continues b) (h' : b.Continues c) : a.Continues c :=
  ⟨h.1.trans h'.1, h.2.trans h'.2⟩

/-- The work done does not matter. -/
theorem Consistent.withWork {s : Scan} (h : s.Consistent) (n : Nat) :
    ({ s with work := n } : Scan).Consistent :=
  ⟨h.batch_pos, h.seeded_le, h.numbered, h.counted, h.represented, h.ordered, h.behind, h.within⟩

theorem consistent_ofPlan {f : Filter} {p : Plan} : (ofPlan f p).Consistent where
  batch_pos := Nat.lt_of_lt_of_le (by decide) (Nat.le_max_left _ _)
  seeded_le := Nat.zero_le _
  numbered x hx := by simp [ofPlan] at hx
  counted {i c} hc := by
    simp only [ofPlan, List.getElem?_map, Option.map_eq_some_iff] at hc
    obtain ⟨stem, -, rfl⟩ := hc
    rfl
  represented h := absurd h (Nat.not_lt_zero _)
  ordered _ := .nil
  behind _ x hx := by simp [ofPlan] at hx
  within {i c} hc := by
    simp only [ofPlan, List.getElem?_map, Option.map_eq_some_iff] at hc
    obtain ⟨stem, -, rfl⟩ := hc
    exact Cursor.isWithin_start

/-! ### What waits of one cursor -/

/-- The candidates of a batch carry the number of its cursor. -/
theorem cursor_of_mem_batch {c : Cursor} {v : View} {k : IndexKind} {since : UInt64}
    {number limit : Nat} {f f' : Faults} {b : Batch}
    (h : c.collect v f k since number limit = (.ok b, f')) {x : Candidate} (hx : x ∈ b.candidates) :
    x.cursor = number := by
  obtain ⟨passed, hcands, -⟩ := Cursor.collect_spec h
  rw [hcands] at hx
  obtain ⟨e, -, rfl⟩ := List.mem_map.1 hx
  rfl

theorem countP_batch_self {c : Cursor} {v : View} {k : IndexKind} {since : UInt64}
    {number limit : Nat} {f f' : Faults} {b : Batch}
    (h : c.collect v f k since number limit = (.ok b, f')) :
    b.candidates.countP (fun x => x.cursor = number) = b.candidates.length :=
  List.countP_eq_length.2 fun x hx => by simp [cursor_of_mem_batch h hx]

theorem countP_batch_other {c : Cursor} {v : View} {k : IndexKind} {since : UInt64}
    {number limit i : Nat} {f f' : Faults} {b : Batch}
    (h : c.collect v f k since number limit = (.ok b, f')) (hi : i ≠ number) :
    b.candidates.countP (fun x => x.cursor = i) = 0 :=
  List.countP_eq_zero.2 fun x hx => by simp [cursor_of_mem_batch h hx, Ne.symm hi]

/-- The candidates of a batch stand in the order of delivery. -/
theorem pairwise_batch {c : Cursor} {v : View} {k : IndexKind} {since : UInt64}
    {number limit : Nat} {f f' : Faults} {b : Batch}
    (h : c.collect v f k since number limit = (.ok b, f')) :
    b.candidates.Pairwise fun x y => Candidate.comesFirst x y = true := by
  obtain ⟨passed, hcands, hcoming, -⟩ := Cursor.collect_spec h
  rw [hcands, List.pairwise_map]
  have hord : (c.coming v k since).Pairwise fun a b => Entry.cmpBack a b = .lt :=
    Cursor.pairwise_ahead.sublist (List.takeWhile_sublist _)
  have htakes : ∀ e ∈ passed, Cursor.takes c.stem since e = true := fun e he =>
    Cursor.takes_of_mem_coming (hcoming ▸ List.mem_append_left _ he)
  rw [hcoming] at hord
  refine (List.pairwise_append.1 hord).1.imp_of_mem ?_
  intro a b ha hb hab
  rw [← Cursor.entry_toCandidate (htakes a ha), ← Cursor.entry_toCandidate (htakes b hb)] at hab
  exact Candidate.comesFirst_of_cmpBack hab

/-- What a list holds once one of its items has been replaced. -/
theorem getElem?_set_cases {α : Type} {l : List α} {i j : Nat} {a b : α} (hi : i < l.length)
    (h : (l.set i a)[j]? = some b) : (j = i ∧ b = a) ∨ (j ≠ i ∧ l[j]? = some b) := by
  by_cases hj : i = j
  · subst hj
    rw [List.getElem?_set_self hi] at h
    exact .inl ⟨rfl, (Option.some.inj h).symm⟩
  · rw [List.getElem?_set_ne hj] at h
    exact .inr ⟨Ne.symm hj, h⟩

/-! ### Seeding -/

theorem perm_buffer_seed {s : Scan} {c : Cursor} {b : Batch} :
    (s.seed c b).buffer.Perm (s.buffer ++ b.candidates) := by
  simp only [Scan.seed]
  split
  · exact List.mergeSort_perm _ _
  · exact .refl _

theorem Consistent.seed {s : Scan} (hs : s.Consistent) {v : View} {f f' : Faults} {c : Cursor}
    {b : Batch} (hc : s.cursors[s.seeded]? = some c)
    (hb : c.collect v f s.index s.filter.since s.seeded s.initialBatch = (.ok b, f')) :
    (s.seed c b).Consistent := by
  have hlen := (List.getElem?_eq_some_iff.1 hc).1
  have hmem : ∀ {x}, x ∈ (s.seed c b).buffer ↔ x ∈ s.buffer ∨ x ∈ b.candidates := by
    intro x
    rw [perm_buffer_seed.mem_iff, List.mem_append]
  -- a cursor of the new scan is the one seeded or one of before
  have hcursor : ∀ {i c'}, (s.seed c b).cursors[i]? = some c' →
      (i = s.seeded ∧ c' = c.absorb b) ∨ (i ≠ s.seeded ∧ s.cursors[i]? = some c') :=
    fun h => getElem?_set_cases hlen h
  have hle : s.seeded + 1 ≤ (s.seed c b).cursors.length := by
    simp only [Scan.seed, List.length_set]
    exact hlen
  refine { hs with
    seeded_le := hle
    numbered := ?numbered
    counted := ?counted
    represented := ?represented
    ordered := ?ordered
    behind := ?behind
    within := ?within }
  case numbered =>
    intro x hx
    rcases hmem.1 hx with hx | hx
    · exact Nat.lt_succ_of_lt (hs.numbered x hx)
    · rw [cursor_of_mem_batch hb hx]
      exact Nat.lt_succ_self _
  case counted =>
    intro i c' hc'
    rw [perm_buffer_seed.countP_eq, List.countP_append]
    rcases hcursor hc' with ⟨rfl, rfl⟩ | ⟨hi, hc'⟩
    · rw [Cursor.outstanding_absorb, hs.counted hc, countP_batch_self hb]
    · rw [hs.counted hc', countP_batch_other hb hi, Nat.add_zero]
  case represented =>
    intro i c' hi hc' hactive
    rcases hcursor hc' with ⟨rfl, rfl⟩ | ⟨hne, hc'⟩
    · rw [Cursor.isActive_absorb] at hactive
      obtain ⟨passed, hcands, -, hfull, -⟩ := Cursor.collect_spec hb
      rw [Cursor.outstanding_absorb, hcands, List.length_map, hfull hactive]
      exact Nat.add_pos_right _ hs.batch_pos
    · have hlt : i < s.seeded := Nat.lt_of_le_of_ne (Nat.le_of_lt_succ hi) hne
      exact hs.represented hlt hc' hactive
  case ordered =>
    intro hall
    have hall' : s.seeded + 1 = s.cursors.length := by simpa [Scan.seed] using hall
    simp only [Scan.seed, if_pos hall']
    exact List.pairwise_mergeSort Candidate.comesFirst_trans Candidate.comesFirst_total _
  case behind =>
    intro i c' hc' x hx hcur
    rcases hcursor hc' with ⟨rfl, rfl⟩ | ⟨hne, hc'⟩
    · apply Cursor.IsBehind.absorb hb
      rcases hmem.1 hx with hx | hx
      · exact absurd hcur (Nat.ne_of_lt (hs.numbered x hx))
      · exact .inl hx
    · rcases hmem.1 hx with hx | hx
      · exact hs.behind hc' x hx hcur
      · exact absurd (hcur.symm.trans (cursor_of_mem_batch hb hx)) hne
  case within =>
    intro i c' hc'
    rcases hcursor hc' with ⟨rfl, rfl⟩ | ⟨-, hc'⟩
    · exact (hs.within hc).absorb hb
    · exact hs.within hc'

theorem map_stem_set {cursors : List Cursor} {i : Nat} {c c' : Cursor} (hc : cursors[i]? = some c)
    (h : c'.stem = c.stem) : (cursors.set i c').map Cursor.stem = cursors.map Cursor.stem := by
  apply List.ext_getElem?
  intro j
  rw [List.getElem?_map, List.getElem?_map]
  by_cases hj : i = j
  · subst hj
    rw [List.getElem?_set_self (List.getElem?_eq_some_iff.1 hc).1, hc, Option.map_some,
      Option.map_some, h]
  · rw [List.getElem?_set_ne hj]

theorem continues_seed {s : Scan} {c : Cursor} {b : Batch} (hc : s.cursors[s.seeded]? = some c) :
    (s.seed c b).Continues s := by
  refine ⟨rfl, ?_⟩
  simp only [plan, Scan.seed, map_stem_set hc Cursor.stem_absorb]

/-! ### Judging -/

/-- What is read for a cursor whose candidate leaves: its next batch if it was the last one and the
cursor can go on, else nothing. -/
inductive Refilled (s : Scan) (v : View) (f f' : Faults) (number : Nat) (c : Cursor) :
    Option Batch → Prop
  | nothing : ¬ (c.outstanding = 1 ∧ c.isActive = true) → Refilled s v f f' number c none
  | next {batch} : c.outstanding = 1 →
      c.collect v f s.index s.filter.since number s.refillBatch = (.ok batch, f') →
      Refilled s v f f' number c (some batch)

theorem refilled {s : Scan} {v : View} {f f' : Faults} {number : Nat} {c : Cursor}
    {b : Option Batch} (hc : s.cursors[number]? = some c)
    (h : s.refill v f number = (.ok b, f')) : Refilled s v f f' number c b := by
  rw [refill, hc] at h
  simp only at h
  split at h
  · rename_i hlast
    simp only [Bool.and_eq_true, decide_eq_true_eq] at hlast
    split at h
    · rename_i batch f'' hread
      cases h
      exact .next hlast.1 hread
    · cases (Prod.mk.inj h).1
  · rename_i hlast
    cases h
    exact .nothing (by simpa using hlast)

/-- What a cursor brings when one of its candidates leaves. -/
def brought : Option Batch → List Candidate
  | none => []
  | some b => b.candidates

theorem stem_release {c : Cursor} {b : Option Batch} : (release c b).stem = c.stem := by
  cases b with
  | none => rfl
  | some b => simp only [release, Cursor.stem_absorb]

theorem outstanding_release {c : Cursor} {b : Option Batch} :
    (release c b).outstanding = c.outstanding - 1 + (brought b).length := by
  cases b with
  | none => rfl
  | some b => simp only [release, Cursor.outstanding_absorb, brought]

namespace Refilled

variable {s : Scan} {v : View} {f f' : Faults} {number : Nat} {c : Cursor} {b : Option Batch}

/-- How many candidates wait does not matter for what a cursor reads. -/
theorem collect_release {limit : Nat} {outcome : Except ReadError Batch × Faults}
    (h : c.collect v f s.index s.filter.since number limit = outcome) :
    ({ c with outstanding := c.outstanding - 1 } : Cursor).collect v f s.index s.filter.since number
      limit = outcome := h

theorem cursor_of_mem (h : Refilled s v f f' number c b) {x : Candidate} (hx : x ∈ brought b) :
    x.cursor = number := by
  cases h with
  | nothing _ => exact absurd hx List.not_mem_nil
  | next _ hbatch => exact cursor_of_mem_batch hbatch hx

/-- A cursor that can go on is not left without a candidate. -/
theorem outstanding_pos (h : Refilled s v f f' number c b) (hs : s.Consistent)
    (hpos : c.isActive = true → 0 < c.outstanding) (hactive : (release c b).isActive = true) :
    0 < (release c b).outstanding := by
  cases h with
  | nothing hmore =>
    have hpos := hpos hactive
    have hne : c.outstanding ≠ 1 := fun h => hmore ⟨h, hactive⟩
    rw [outstanding_release]
    omega
  | next _ hbatch =>
    obtain ⟨passed, hcands, -, hfull, -⟩ := Cursor.collect_spec hbatch
    rw [release, Cursor.isActive_absorb] at hactive
    have hpos : 0 < s.refillBatch := Nat.mul_pos (by decide) hs.batch_pos
    rw [outstanding_release, brought, hcands, List.length_map, hfull hactive]
    omega

theorem isBehind (h : Refilled s v f f' number c b) {x : Candidate}
    (hx : c.IsBehind x ∨ x ∈ brought b) : (release c b).IsBehind x := by
  cases h with
  | nothing _ =>
    rcases hx with hx | hx
    · exact hx
    · exact absurd hx List.not_mem_nil
  | next _ hbatch => exact Cursor.IsBehind.absorb (collect_release hbatch) hx.symm

theorem isWithin (h : Refilled s v f f' number c b) (hwithin : c.IsWithin s.filter.upTo) :
    (release c b).IsWithin s.filter.upTo := by
  cases h with
  | nothing _ => exact hwithin
  | next _ hbatch => exact Cursor.IsWithin.absorb (collect_release hbatch) hwithin

/-- The buffer stays in the order of delivery when a batch is merged in. -/
theorem pairwise_buffer (h : Refilled s v f f' number c b) {next : Candidate} {rest : List Candidate}
    (hrest : rest.Pairwise fun x y => Candidate.comesFirst x y = true) :
    (s.pop next rest b).buffer.Pairwise fun x y => Candidate.comesFirst x y = true := by
  cases h with
  | nothing _ => exact hrest
  | next _ hbatch =>
    exact List.pairwise_merge Candidate.comesFirst_trans Candidate.comesFirst_total _ _ hrest
      (pairwise_batch hbatch)

end Refilled

theorem perm_buffer_pop {s : Scan} {next : Candidate} {rest : List Candidate} {b : Option Batch} :
    (s.pop next rest b).buffer.Perm (rest ++ brought b) := by
  cases b with
  | none => simp [pop, brought]
  | some b => exact List.merge_perm_append _

theorem cursors_pop {s : Scan} {next : Candidate} {rest : List Candidate} {b : Option Batch}
    {c : Cursor} (hc : s.cursors[next.cursor]? = some c) :
    (s.pop next rest b).cursors = s.cursors.set next.cursor (release c b) :=
  modify_eq_set hc

theorem continues_pop {s : Scan} {next : Candidate} {rest : List Candidate} {b : Option Batch}
    {c : Cursor} (hc : s.cursors[next.cursor]? = some c) : (s.pop next rest b).Continues s := by
  refine ⟨rfl, ?_⟩
  simp only [plan, cursors_pop hc, map_stem_set hc stem_release]
  rfl

theorem Consistent.pop {s : Scan} (hs : s.Consistent) {v : View} {f f' : Faults} {next : Candidate}
    {rest : List Candidate} {b : Option Batch} (hall : s.seeded = s.cursors.length)
    (hbuffer : s.buffer = next :: rest) (hb : s.refill v f next.cursor = (.ok b, f')) :
    (s.pop next rest b).Consistent := by
  have hlt : next.cursor < s.seeded := hs.numbered next (by simp [hbuffer])
  have hlen : next.cursor < s.cursors.length := hall ▸ hlt
  obtain ⟨c, hc⟩ : ∃ c, s.cursors[next.cursor]? = some c := ⟨_, List.getElem?_eq_getElem hlen⟩
  have hread := refilled hc hb
  have hmem : ∀ {x}, x ∈ (s.pop next rest b).buffer ↔ x ∈ rest ∨ x ∈ brought b := by
    intro x
    rw [perm_buffer_pop.mem_iff, List.mem_append]
  -- a cursor of the new scan is the one whose candidate leaves or one of before
  have hcursor : ∀ {i c'}, (s.pop next rest b).cursors[i]? = some c' →
      (i = next.cursor ∧ c' = release c b) ∨ (i ≠ next.cursor ∧ s.cursors[i]? = some c') :=
    fun h => getElem?_set_cases hlen (cursors_pop hc ▸ h)
  have hcount : c.outstanding = rest.countP (fun x => x.cursor = next.cursor) + 1 := by
    rw [hs.counted hc, hbuffer, List.countP_cons_of_pos (by simp)]
  have hrest : ∀ x ∈ rest, x ∈ s.buffer := fun x hx => by simp [hbuffer, hx]
  refine { hs with
    seeded_le := ?seeded_le
    numbered := ?numbered
    counted := ?counted
    represented := ?represented
    ordered := ?ordered
    behind := ?behind
    within := ?within }
  case seeded_le =>
    rw [cursors_pop hc, List.length_set]
    exact hs.seeded_le
  case numbered =>
    intro x hx
    rcases hmem.1 hx with hx | hx
    · exact hs.numbered x (hrest x hx)
    · rw [hread.cursor_of_mem hx]
      exact hlt
  case counted =>
    intro i c' hc'
    rw [perm_buffer_pop.countP_eq, List.countP_append]
    rcases hcursor hc' with ⟨rfl, rfl⟩ | ⟨hi, hc'⟩
    -- one candidate of the cursor leaves, and the refill brings only its own
    · have hself : (brought b).countP (fun x => x.cursor = next.cursor) = (brought b).length :=
        List.countP_eq_length.2 fun x hx => by simp [hread.cursor_of_mem hx]
      rw [outstanding_release, hcount, hself, Nat.add_sub_cancel]
    · have hnone : (brought b).countP (fun x => x.cursor = i) = 0 :=
        List.countP_eq_zero.2 fun x hx => by simp [hread.cursor_of_mem hx, Ne.symm hi]
      rw [hs.counted hc', hbuffer, List.countP_cons_of_neg (by simpa using Ne.symm hi), hnone,
        Nat.add_zero]
  case represented =>
    intro i c' hi hc' hactive
    rcases hcursor hc' with ⟨rfl, rfl⟩ | ⟨-, hc'⟩
    · exact hread.outstanding_pos hs (hs.represented hlt hc) hactive
    · exact hs.represented hi hc' hactive
  case ordered =>
    intro _
    have hord := hs.ordered hall
    rw [hbuffer] at hord
    exact hread.pairwise_buffer (List.pairwise_cons.1 hord).2
  case behind =>
    intro i c' hc' x hx hcur
    rcases hcursor hc' with ⟨rfl, rfl⟩ | ⟨hne, hc'⟩
    · apply hread.isBehind
      rcases hmem.1 hx with hx | hx
      · exact .inl (hs.behind hc x (hrest x hx) hcur)
      · exact .inr hx
    · rcases hmem.1 hx with hx | hx
      · exact hs.behind hc' x (hrest x hx) hcur
      · exact absurd (hcur.symm.trans (hread.cursor_of_mem hx)) hne
  case within =>
    intro i c' hc'
    rcases hcursor hc' with ⟨rfl, rfl⟩ | ⟨-, hc'⟩
    · exact hread.isWithin (hs.within hc)
    · exact hs.within hc'

/-- The first candidate of the buffer comes before all that the cursors will still bring. -/
theorem Consistent.comesFirst {s : Scan} (hs : s.Consistent) (hall : s.seeded = s.cursors.length)
    {next : Candidate} {rest : List Candidate} (hbuffer : s.buffer = next :: rest) {v : View}
    {i : Nat} {c : Cursor} (hc : s.cursors[i]? = some c) {e : Entry}
    (he : e ∈ c.coming v s.index s.filter.since) :
    Candidate.comesFirst next (Cursor.toCandidate i e) = true := by
  have hi : i < s.seeded := hall ▸ (List.getElem?_eq_some_iff.1 hc).1
  have hactive : c.isActive = true := by
    cases h : c.isActive with
    | true => rfl
    | false => simp [Cursor.coming_of_not_isActive h] at he
  -- the cursor is represented by a candidate, behind which the entry lies
  have hpos := hs.represented hi hc hactive
  rw [hs.counted hc, List.countP_pos_iff] at hpos
  obtain ⟨x, hx, hcur⟩ := hpos
  have hxe := (hs.behind hc x hx (by simpa using hcur)).cmpBack_of_mem_ahead
    (Cursor.mem_ahead_of_mem_coming he)
  have hentry : (Cursor.toCandidate i e).entry c.stem = e :=
    Cursor.entry_toCandidate (Cursor.takes_of_mem_coming he)
  rw [← hentry] at hxe
  have hxe := Candidate.comesFirst_of_cmpBack hxe
  have hord := hs.ordered hall
  rw [hbuffer] at hord hx
  rcases List.mem_cons.1 hx with rfl | hx
  · exact hxe
  · exact Candidate.comesFirst_trans _ _ _ ((List.pairwise_cons.1 hord).1 x hx) hxe

end Scan

end EventRelay
