import EventRelay.Proofs.Scan.Consistency
import EventRelay.Proofs.Scan.Stamp
/-!
# The agenda of a scan

The agenda of a scan in a view is what the scan would still judge if the view did not change: the
candidates that wait and those that the cursors will still bring, in the order of delivery.  A step
takes the first of them off, or only moves some of them from the index to the buffer.  What is awaited
of a scan are the matches among them that are not above a watermark.

Main statements: `Consistent.progress` (what one step does to the agenda) and `awaited_of_judged` (what
judging a candidate does to what is awaited).
-/

namespace EventRelay

def Candidate.stamp (x : Candidate) : Stamp := ⟨x.createdAt, x.seq⟩

theorem Candidate.comesFirst_stamp {x y : Candidate} :
    Stamp.comesFirst x.stamp y.stamp = comesFirst x y := rfl

/-- The front of one of several lists can be taken off. -/
theorem perm_flatten_set {α : Type} {l : List (List α)} {i : Nat} {front rest : List α}
    (h : l[i]? = some (front ++ rest)) : (front ++ (l.set i rest).flatten).Perm l.flatten := by
  induction l generalizing i with
  | nil => simp at h
  | cons a l ih =>
    cases i with
    | zero =>
      simp only [List.getElem?_cons_zero, Option.some.injEq] at h
      rw [h, List.set_cons_zero, List.flatten_cons, List.flatten_cons, List.append_assoc]
    | succ i =>
      rw [List.getElem?_cons_succ] at h
      rw [List.set_cons_succ, List.flatten_cons, List.flatten_cons, ← List.append_assoc]
      have hswap : (front ++ a ++ (l.set i rest).flatten).Perm
          (a ++ (front ++ (l.set i rest).flatten)) := by
        rw [← List.append_assoc]
        exact List.perm_append_comm.append_right _
      exact hswap.trans ((ih h).append_left a)

namespace Scan

/-- What cursor number `i` of a scan will still bring. -/
def comingOf (s : Scan) (v : View) (i : Nat) (c : Cursor) : List Candidate :=
  (c.coming v s.index s.filter.since).map (Cursor.toCandidate i)

/-- What the cursors of a scan will still bring. -/
def coming (s : Scan) (v : View) : List Candidate := (s.cursors.mapIdx (s.comingOf v)).flatten

/-- What a scan has still to judge, in the order of delivery. -/
def agenda (s : Scan) (v : View) : List Stamp :=
  Stamp.sort ((s.buffer ++ s.coming v).map Candidate.stamp)

/-- Whether a scan will accept what stands on its agenda. -/
def verdict (s : Scan) (v : View) (x : Stamp) : Bool :=
  if s.indexOnly then s.filter.matchesTime x.time else (v.event? x.seq).any s.filter.accepts

theorem mem_coming {s : Scan} {v : View} {x : Candidate} :
    x ∈ s.coming v ↔ ∃ i c, s.cursors[i]? = some c ∧
      ∃ e ∈ c.coming v s.index s.filter.since, Cursor.toCandidate i e = x := by
  simp only [coming, List.mem_flatten, List.mem_mapIdx, comingOf]
  constructor
  · rintro ⟨_, ⟨i, hi, rfl⟩, hx⟩
    obtain ⟨e, he, rfl⟩ := List.mem_map.1 hx
    exact ⟨i, _, List.getElem?_eq_getElem hi, e, he, rfl⟩
  · rintro ⟨i, c, hc, e, he, rfl⟩
    obtain ⟨hi, rfl⟩ := List.getElem?_eq_some_iff.1 hc
    exact ⟨_, ⟨i, hi, rfl⟩, List.mem_map_of_mem he⟩

/-- When one cursor has moved on past `front`, the others bring what they did. -/
theorem perm_coming_set {s s' : Scan} {v : View} {i : Nat} {c c' : Cursor} {front : List Candidate}
    (hc : s.cursors[i]? = some c) (hcursors : s'.cursors = s.cursors.set i c')
    (hindex : s'.index = s.index) (hfilter : s'.filter = s.filter)
    (h : s.comingOf v i c = front ++ s.comingOf v i c') :
    (front ++ s'.coming v).Perm (s.coming v) := by
  have hof : s'.comingOf v = s.comingOf v := by
    funext j d
    rw [comingOf, comingOf, hindex, hfilter]
  rw [coming, coming, hof, hcursors, List.mapIdx_set]
  apply perm_flatten_set
  rw [List.getElem?_mapIdx, hc, Option.map_some, h]

/-- A batch is the beginning of what its cursor brings. -/
theorem comingOf_collect {s : Scan} {v : View} {f f' : Faults} {i limit : Nat} {c : Cursor} {b : Batch}
    (h : c.collect v f s.index s.filter.since i limit = (.ok b, f')) :
    s.comingOf v i c = b.candidates ++ s.comingOf v i (c.absorb b) := by
  obtain ⟨passed, hcands, hcoming, -⟩ := Cursor.collect_spec h
  rw [comingOf, comingOf, hcoming, List.map_append, hcands]

theorem comingOf_refill {s : Scan} {v : View} {f f' : Faults} {number : Nat} {c : Cursor}
    {b : Option Batch} (hc : s.cursors[number]? = some c)
    (h : s.refill v f number = (.ok b, f')) :
    s.comingOf v number c = brought b ++ s.comingOf v number (release c b) := by
  cases refilled hc h with
  | nothing _ => rfl
  | @next batch _ hbatch =>
    rw [comingOf_collect hbatch]
    show batch.candidates ++ _ = batch.candidates ++ _
    simp only [comingOf, Cursor.coming, ahead_release_some, stem_release, Cursor.stem_absorb]

/-! ### Seeding -/

theorem agenda_seed {s : Scan} {v : View} {f f' : Faults} {c : Cursor} {b : Batch}
    (hc : s.cursors[s.seeded]? = some c)
    (hb : c.collect v f s.index s.filter.since s.seeded s.initialBatch = (.ok b, f')) :
    (s.seed c b).agenda v = s.agenda v := by
  apply Stamp.sort_eq_of_perm
  apply List.Perm.map
  have hcoming : (b.candidates ++ (s.seed c b).coming v).Perm (s.coming v) :=
    perm_coming_set hc rfl rfl rfl (comingOf_collect hb)
  have hmove := (@perm_buffer_seed s c b).append_right ((s.seed c b).coming v)
  rw [List.append_assoc] at hmove
  exact hmove.trans (hcoming.append_left s.buffer)

/-! ### Judging -/

theorem agenda_pop {s : Scan} (hs : s.Consistent) {v : View} {f f' : Faults} {next : Candidate}
    {rest : List Candidate} {b : Option Batch} (hall : s.seeded = s.cursors.length)
    (hbuffer : s.buffer = next :: rest) (hb : s.refill v f next.cursor = (.ok b, f')) :
    s.agenda v = next.stamp :: (s.pop next rest b).agenda v := by
  have hlen : next.cursor < s.cursors.length := hall ▸ hs.numbered next (by simp [hbuffer])
  have hc : s.cursors[next.cursor]? = some s.cursors[next.cursor] := List.getElem?_eq_getElem hlen
  -- all else on the agenda comes behind the first candidate
  have hfirst : ∀ x ∈ (rest ++ s.coming v).map Candidate.stamp,
      Stamp.comesFirst next.stamp x = true := by
    intro x hx
    obtain ⟨y, hy, rfl⟩ := List.mem_map.1 hx
    rw [Candidate.comesFirst_stamp]
    rcases List.mem_append.1 hy with hy | hy
    · have hord := hs.ordered hall
      rw [hbuffer] at hord
      exact (List.pairwise_cons.1 hord).1 y hy
    · obtain ⟨i, d, hd, e, he, rfl⟩ := mem_coming.1 hy
      exact hs.comesFirst hall hbuffer hd he
  have hcoming : (brought b ++ (s.pop next rest b).coming v).Perm (s.coming v) :=
    perm_coming_set hc (cursors_pop hc) rfl rfl (comingOf_refill hc hb)
  have hmove := (@perm_buffer_pop s next rest b).append_right
    ((s.pop next rest b).coming v)
  rw [List.append_assoc] at hmove
  rw [agenda, hbuffer, List.cons_append, List.map_cons, Stamp.sort_cons hfirst]
  congr 1
  apply Stamp.sort_eq_of_perm
  exact (hmove.trans (hcoming.append_left rest)).symm.map _

theorem verdict_of_judge {s : Scan} {v : View} {f : Faults} {next : Candidate} {accepted : Bool}
    (h : (s.judge v f next).outcome = .ok accepted) : accepted = s.verdict v next.stamp := by
  rw [judge] at h
  rw [verdict]
  split at h
  · rename_i hindex
    rw [if_pos hindex]
    exact (Except.ok.inj h).symm
  · rename_i hindex
    rw [if_neg hindex]
    show accepted = (v.event? next.seq).any s.filter.accepts
    rw [View.readRow, Faults.read] at h
    rw [View.event?]
    cases hcall : f.call .event with
    | mk outcome f' =>
      rw [hcall] at h
      cases outcome with
      | some n => cases h
      | none =>
        cases hrow : v.rows.get? next.seq with
        | none =>
          rw [hrow] at h
          exact (Except.ok.inj h).symm
        | some row =>
          rw [hrow] at h
          exact (Except.ok.inj h).symm

/-! ### One step -/

/-- Nothing is on the agenda once every cursor is seeded and the buffer is empty. -/
theorem Consistent.agenda_eq_nil {s : Scan} (hs : s.Consistent) {v : View}
    (hall : s.seeded = s.cursors.length) (hbuffer : s.buffer = []) : s.agenda v = [] := by
  have hcoming : s.coming v = [] := by
    apply List.eq_nil_iff_forall_not_mem.2
    intro x hx
    obtain ⟨i, c, hc, e, he, -⟩ := mem_coming.1 hx
    cases hactive : c.isActive with
    | false =>
      rw [Cursor.coming_of_not_isActive hactive] at he
      exact List.not_mem_nil he
    | true =>
      have hi := (List.getElem?_eq_some_iff.1 hc).1
      have hpos := hs.represented (hall ▸ hi) hc hactive
      rw [hs.counted hc, hbuffer] at hpos
      exact Nat.lt_irrefl 0 hpos
  rw [agenda, hbuffer, hcoming]
  exact List.mergeSort_nil

theorem Consistent.seeded_eq {s : Scan} (hs : s.Consistent) (h : s.cursors[s.seeded]? = none) :
    s.seeded = s.cursors.length :=
  Nat.le_antisymm hs.seeded_le (List.getElem?_eq_none_iff.1 h)

/-- What a step may come to, and what becomes of the agenda. -/
inductive Progress (v : View) (s : Scan) : Advance → Prop
  | finished : s.agenda v = [] → Progress v s .finished
  | failed {s' e} : s'.Consistent → s'.Continues s → s'.agenda v = s.agenda v →
      Progress v s (.failed s' e)
  | seeded {s'} : s'.Consistent → s'.Continues s → s'.agenda v = s.agenda v →
      Progress v s (.seeded s')
  | judged {s' x accepted} : s'.Consistent → s'.Continues s → s.agenda v = x :: s'.agenda v →
      accepted = s.verdict v x → Progress v s (.judged s' x.seq accepted)

/-- Every step of a consistent scan gets on with its agenda. -/
theorem Consistent.progress {s : Scan} (hs : s.Consistent) (v : View) (f : Faults) :
    Progress v s (s.advance v f).outcome := by
  rw [advance]
  cases hc : s.cursors[s.seeded]? with
  | some c =>
    simp only
    split
    · exact .failed hs .rfl rfl
    · rename_i b f' hb
      exact .seeded (hs.seed hc hb) (continues_seed hc) (agenda_seed hc hb)
  | none =>
    have hall := hs.seeded_eq hc
    simp only
    split
    · rename_i hbuffer
      exact .finished (hs.agenda_eq_nil hall hbuffer)
    · rename_i next rest hbuffer
      have hs' := hs.withWork (s.work + s.judgingCost)
      split
      · exact .failed hs' ⟨rfl, rfl⟩ rfl
      · rename_i accepted hjudge
        split
        · exact .failed hs' ⟨rfl, rfl⟩ rfl
        · rename_i b f' hb
          -- the candidate leaves only when both reads went well, so a failure can be repeated
          have hlen : next.cursor < s.cursors.length :=
            hall ▸ hs.numbered next (by simp [hbuffer])
          have hcont : (({ s with work := s.work + s.judgingCost } : Scan).pop next rest b).Continues
              s :=
            continues_pop (List.getElem?_eq_getElem hlen)
          have hagenda : s.agenda v = _ := agenda_pop hs' hall hbuffer hb
          exact .judged (hs'.pop hall hbuffer hb) hcont hagenda (verdict_of_judge hjudge)

/-- The next step of a run: one more unit of work, then a step. -/
theorem Consistent.progress_of_advance {s : Scan} (hs : s.Consistent) {v : View} {f : Faults}
    {reading : Reading Advance}
    (hadv : ({ s with work := s.work + 1 } : Scan).advance v f = reading) :
    Progress v { s with work := s.work + 1 } reading.outcome := by
  rw [← hadv]
  exact (hs.withWork (s.work + 1)).progress v f

/-! ### What is awaited -/

/-- The matches at or below a watermark that a scan has still to judge, in the order of delivery. -/
def awaited (s : Scan) (v : View) (watermark : Nat) : List Nat :=
  ((s.agenda v).filter fun x => decide (x.seq ≤ watermark) && s.verdict v x).map Stamp.seq

theorem Continues.verdict_eq {s s' : Scan} (h : s'.Continues s) (v : View) :
    s'.verdict v = s.verdict v := by
  obtain ⟨hfilter, hplan⟩ := h
  have hindexOnly : s'.indexOnly = s.indexOnly := congrArg Plan.indexOnly hplan
  funext x
  rw [verdict, verdict, hfilter, hindexOnly]

theorem Continues.awaited_eq {s s' : Scan} (h : s'.Continues s) {v : View} {w : Nat}
    (hagenda : s'.agenda v = s.agenda v) : s'.awaited v w = s.awaited v w := by
  rw [awaited, awaited, hagenda, h.verdict_eq]

/-- Judging a match at or below the watermark takes it off what is awaited. -/
theorem awaited_of_judged {s s' : Scan} {v : View} {w : Nat} {x : Stamp} (h : s'.Continues s)
    (hagenda : s.agenda v = x :: s'.agenda v) :
    s.awaited v w =
      (if s.verdict v x then if x.seq ≤ w then [x.seq] else [] else []) ++ s'.awaited v w := by
  rw [awaited, awaited, hagenda, h.verdict_eq, List.filter_cons]
  cases s.verdict v x with
  | false => simp
  | true =>
    by_cases hseq : x.seq ≤ w
    · simp [hseq]
    · simp [hseq]

end Scan

end EventRelay
