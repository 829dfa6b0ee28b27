import EventRelay.Proofs.Scan.NewestFirst
/-!
# Outstanding candidates

How many candidates of a cursor wait is counted by the cursor itself, next to the buffer that holds
them.  The count decides when the cursor is read again, so the order and the completeness of a scan
rest on it.  It is right at every turn of the loop of a call, and so behind every call, whether the
call completed, paused or failed, and whatever became of the store in between.

Main statements: `Consistent.run` (a call keeps a scan consistent, whoever makes it),
`Consistent.accounted` and `accounted_of_reached` (the accounts are right wherever calls lead).
-/

namespace EventRelay

namespace Scan

variable {f : Filter} {cap : UInt64} {s s' : Scan} {v : View} {faults : Faults}

/-! ### Turns and calls -/

/-- The scan that goes on behind a step, unless nothing was left to do. -/
def Advance.scan? : Advance → Option Scan
  | .finished => none
  | .failed s _ => some s
  | .seeded s => some s
  | .judged s _ _ => some s

/-- One turn of the loop: one more unit of work, then a step. -/
def turn (s : Scan) (v : View) (faults : Faults) : Advance :=
  (({ s with work := s.work + 1 } : Scan).advance v faults).outcome

/-- The scans that calls lead to from the scan of a filter: what a call leaves and what it passes through,
each turn against any view and any failures. -/
inductive Reached (f : Filter) (cap : UInt64) : Scan → Prop
  | start : Reached f cap (ofFilter f cap)
  | turned {s s' : Scan} (v : View) (faults : Faults) :
      Reached f cap s → (s.turn v faults).scan? = some s' → Reached f cap s'
  | called {s : Scan} {σ : Type} (control : Control σ) (v : View) (faults : Faults) (a : σ)
      (reports : List CorruptRow) :
      Reached f cap s → Reached f cap (s.run control v faults a reports).scan

theorem Progress.consistent {step : Advance} (h : Progress v s step) (hs' : step.scan? = some s') :
    s'.Consistent := by
  cases h with
  | finished _ => cases hs'
  | failed hs | seeded hs | judged hs =>
    cases hs'
    exact hs

theorem Consistent.turn (hs : s.Consistent) (h : (s.turn v faults).scan? = some s') : s'.Consistent :=
  ((hs.withWork (s.work + 1)).progress v faults).consistent h

/-- A call leaves a consistent scan, whoever makes it and wherever it stops. -/
theorem Consistent.run {σ : Type} {control : Control σ} {a : σ} {reports : List CorruptRow}
    (hs : s.Consistent) : (s.run control v faults a reports).scan.Consistent := by
  fun_induction Scan.run control v s faults a reports with
  | case1 => exact hs.withWork _
  | case2 => exact hs.withWork _
  | case3 s f a reports s' a' hpause s'' e f' found hadv =>
    exact (hs.progress_of_advance hadv).consistent rfl
  | case4 s f a reports s' a' hpause s'' f' found hadv ih =>
    exact ih ((hs.progress_of_advance hadv).consistent rfl)
  | case5 s f a reports s' a' hpause s'' seq f' found a'' hmatch hadv =>
    exact (hs.progress_of_advance hadv).consistent rfl
  | case6 s f a reports s' a' hpause s'' seq f' found a'' hmatch hadv ih =>
    exact ih ((hs.progress_of_advance hadv).consistent rfl)
  | case7 s f a reports s' a' hpause s'' seq accepted f' found hadv hrejected ih =>
    exact ih ((hs.progress_of_advance hadv).consistent rfl)

theorem Reached.consistent (h : Reached f cap s) : s.Consistent := by
  induction h with
  | start => exact consistent_ofPlan
  | turned _ _ _ hturn ih => exact ih.turn hturn
  | called _ _ _ _ _ _ ih => exact ih.run

/-! ### The accounts -/

/-- What the counts and the resume points of a scan say of its buffer. -/
structure Accounted (s : Scan) : Prop where
  counted : ∀ {i : Nat} {c : Cursor}, s.cursors[i]? = some c →
    c.outstanding = s.buffer.countP fun x => x.cursor = i
  in_range : ∀ x ∈ s.buffer, x.cursor < s.cursors.length
  sorted : s.AllSeeded → s.buffer.Pairwise fun x y => Candidate.comesFirst x y = true
  represented : s.AllSeeded → ∀ c ∈ s.cursors, c.isActive = true → 1 ≤ c.outstanding
  /-- The entry where an active cursor goes on lies strictly below those of its candidates. -/
  below : s.AllSeeded → ∀ {i : Nat} {c : Cursor}, s.cursors[i]? = some c →
    ∀ {key : Bytes}, c.resumeKey = some key → ∃ seq, c.resumeSeq = some seq
      ∧ ∀ x ∈ s.buffer, x.cursor = i → Entry.cmpBack (x.entry c.stem) ⟨key, seq⟩ = .lt
  exhausted : s.AllSeeded → s.buffer = [] → ∀ c ∈ s.cursors, c.isActive = false

/-- The cursor of a candidate has counted it. -/
theorem Consistent.outstanding_pos_of_mem (hs : s.Consistent) {x : Candidate} (hx : x ∈ s.buffer) :
    ∃ c, s.cursors[x.cursor]? = some c ∧ 1 ≤ c.outstanding := by
  have hlt : x.cursor < s.cursors.length := Nat.lt_of_lt_of_le (hs.numbered x hx) hs.seeded_le
  refine ⟨s.cursors[x.cursor], List.getElem?_eq_getElem hlt, ?_⟩
  rw [hs.counted (List.getElem?_eq_getElem hlt)]
  exact List.countP_pos_iff.2 ⟨x, hx, by simp⟩

/-- Once all cursors are seeded, a cursor that can go on has a candidate in the buffer. -/
theorem Consistent.exists_mem_of_isActive (hs : s.Consistent) (hall : s.AllSeeded) {i : Nat} {c : Cursor}
    (hc : s.cursors[i]? = some c) (hactive : c.isActive = true) : ∃ x ∈ s.buffer, x.cursor = i := by
  have hi : i < s.seeded := hall ▸ (List.getElem?_eq_some_iff.1 hc).1
  have hpos := hs.represented hi hc hactive
  rw [hs.counted hc, List.countP_pos_iff] at hpos
  obtain ⟨x, hx, hcur⟩ := hpos
  exact ⟨x, hx, by simpa using hcur⟩

theorem Consistent.accounted (hs : s.Consistent) : s.Accounted := by
  refine ⟨hs.counted, ?in_range, hs.ordered, ?represented, ?below, ?exhausted⟩
  case in_range => exact fun x hx => Nat.lt_of_lt_of_le (hs.numbered x hx) hs.seeded_le
  case represented =>
    intro hall c hc hactive
    obtain ⟨i, hi, rfl⟩ := List.getElem_of_mem hc
    exact hs.represented (hall ▸ hi) (List.getElem?_eq_getElem hi) hactive
  case below =>
    intro hall i c hc key hkey
    -- the candidate that represents the cursor tells that it has a bound on the seq
    have hactive : c.isActive = true := by rw [Cursor.isActive, hkey, Option.isSome_some]
    obtain ⟨x, hx, hcur⟩ := hs.exists_mem_of_isActive hall hc hactive
    obtain ⟨seq, hseq, -⟩ := hs.behind hc x hx hcur key hkey
    refine ⟨seq, hseq, fun y hy hcur => ?_⟩
    obtain ⟨seq', hseq', hlt⟩ := hs.behind hc y hy hcur key hkey
    cases hseq.symm.trans hseq'
    exact hlt
  case exhausted =>
    intro hall hbuffer c hc
    obtain ⟨i, hi, rfl⟩ := List.getElem_of_mem hc
    cases hactive : s.cursors[i].isActive with
    | false => rfl
    | true =>
      obtain ⟨x, hx, -⟩ := hs.exists_mem_of_isActive hall (List.getElem?_eq_getElem hi) hactive
      rw [hbuffer] at hx
      cases hx

/-- A turn that judges takes the first candidate off the buffer. -/
theorem buffer_of_judged {seq : Nat} {accepted : Bool} (h : s.turn v faults = .judged s' seq accepted) :
    ∃ next rest, s.buffer = next :: rest ∧ next.seq = seq := by
  rw [turn, advance] at h
  split at h
  · split at h <;> cases h
  · split at h
    · cases h
    · rename_i next rest hbuffer
      refine ⟨next, rest, hbuffer, ?_⟩
      simp only at h
      split at h
      · cases h
      · split at h
        · cases h
        · cases h
          rfl

/-- Wherever calls lead, the accounts are right, and a turn that takes a candidate off finds it counted
by its cursor. -/
theorem accounted_of_reached (h : Reached f cap s) : s.Accounted
    ∧ ∀ (v : View) (faults : Faults) (s' : Scan) (seq : Nat) (accepted : Bool),
      s.turn v faults = .judged s' seq accepted →
        ∃ next rest c, s.buffer = next :: rest ∧ next.seq = seq
          ∧ s.cursors[next.cursor]? = some c ∧ 1 ≤ c.outstanding := by
  have hs := h.consistent
  refine ⟨hs.accounted, ?_⟩
  intro v faults s' seq accepted hturn
  obtain ⟨next, rest, hbuffer, hseq⟩ := buffer_of_judged hturn
  obtain ⟨c, hc, hpos⟩ := hs.outstanding_pos_of_mem (hbuffer ▸ List.mem_cons_self)
  exact ⟨next, rest, c, hbuffer, hseq, hc, hpos⟩

open Replay (tagged noteFilter)

/-- A store of six notes. -/
def sixNotes : Store :=
  .memory ((List.range 6).foldl (fun m i => m.insert (tagged (UInt8.ofNat i) (UInt64.ofNat i) []))
    MemoryStore.empty)

/-- Somebody asks for one note. -/
def oneNoteFilter : Filter := { noteFilter with limit := 1 }

/-- The five newest of the six notes, brought by a cursor that goes on at the oldest. -/
def firstBatch : Batch where
  candidates := [⟨6, 5, 0⟩, ⟨5, 4, 0⟩, ⟨4, 3, 0⟩, ⟨3, 2, 0⟩, ⟨2, 1, 0⟩]
  next := some ⟨IndexKey.make (Stem.ofKind 1) 0, 1⟩
  visited := 5

/-- The scan for one note when its cursor has been seeded from the six. -/
def seededScan : Scan :=
  ({ ofFilter oneNoteFilter 20 with work := 1 } : Scan).seed
    (Cursor.start (Stem.ofKind 1) oneNoteFilter.upTo) firstBatch

theorem reached_seededScan : Reached oneNoteFilter 20 seededScan := by
  have hbatch : Cursor.gather (Stem.ofKind 1) 0 0 5
      ((Cursor.start (Stem.ofKind 1) oneNoteFilter.upTo).ahead sixNotes.view .kind) = firstBatch := by
    decide +kernel
  refine .turned sixNotes.view .none .start ?_
  rw [seededScan, ← hbatch]
  rfl

/-- The cursor can go on, below the five candidates that it has counted. -/
theorem accounted_seededScan : Reached oneNoteFilter 20 seededScan ∧ seededScan.Accounted
    ∧ seededScan.AllSeeded ∧ seededScan.cursors.map Cursor.isActive = [true]
    ∧ seededScan.cursors.map Cursor.outstanding = [5] :=
  ⟨reached_seededScan, (accounted_of_reached reached_seededScan).1, rfl, rfl, rfl⟩

end Scan

end EventRelay
