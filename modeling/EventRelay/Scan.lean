import EventRelay.Scan.Cursor
import EventRelay.Scan.Plan
/-!
# Scans

A scan finds the stored events of one filter, newest first, a few at a time.  Each stem of its plan
has a cursor; the candidates that the cursors bring wait in one buffer, newest first.  At the start
every cursor brings one batch; from then on a cursor brings its next batch when its last candidate
leaves the buffer, so that the buffer always holds the newest candidate not yet judged.

`Scan.advance` is one step of this: it seeds a cursor, or judges the first candidate, or finds the
scan finished.  `Scan.run` repeats the step against one view of a store until the scan is finished,
is paused, is told to stop, or a read fails; whatever happens, the scan that is left can be run again,
also against a later view.

Main statements: `remaining_lt_of_seeded` and `remaining_lt_of_judged`, every step takes something off
what a scan has still to do in a view, so that every run ends.
-/

namespace EventRelay

structure Scan where
  filter : Filter
  index : IndexKind
  indexOnly : Bool
  initialBatch : Nat
  cursors : List Cursor
  /-- The candidates to be judged; newest first once every cursor is seeded. -/
  buffer : List Candidate
  /-- How many cursors have brought their first batch. -/
  seeded : Nat
  /-- The work done so far. -/
  work : Nat
  deriving DecidableEq

namespace Scan

/-- The work of reading an event; looking at an index entry is one unit. -/
def fetchCost : Nat := 10

def minInitialBatch : Nat := 5

def maxInitialBatch : Nat := 50

/-- Later batches are so many times larger than the first. -/
def refillFactor : Nat := 10

/-- The size of the first batches: together about the limit. -/
def initialBatchFor (limit : UInt64) (cursors : Nat) : Nat :=
  max minInitialBatch (min maxInitialBatch (limit.toNat / max cursors 1))

def refillBatch (s : Scan) : Nat := refillFactor * s.initialBatch

/-- The scan of a plan, before its first step. -/
def ofPlan (f : Filter) (p : Plan) : Scan where
  filter := f
  index := p.index
  indexOnly := p.indexOnly
  initialBatch := initialBatchFor f.limit p.stems.length
  cursors := p.stems.map fun stem => Cursor.start stem f.upTo
  buffer := []
  seeded := 0
  work := 0

def ofFilter (f : Filter) (authorKindCap : UInt64) : Scan := ofPlan f (Plan.ofFilter f authorKindCap)

/-! ### One step -/

/-- What a step comes to. -/
inductive Advance where
  /-- Nothing is left to judge. -/
  | finished
  /-- A read failed; but for the work the scan is as it was. -/
  | failed (s : Scan) (e : ReadError)
  /-- A cursor has brought its first batch. -/
  | seeded (s : Scan)
  /-- The first candidate has left the buffer, accepted or not. -/
  | judged (s : Scan) (seq : Nat) (accepted : Bool)
  deriving DecidableEq

/-- What a read that may fail leaves behind: its outcome, the failures to come, and the rows that it
could not read. -/
structure Reading (α : Type) where
  outcome : α
  faults : Faults
  reports : List CorruptRow

/-- The scan after cursor `c`, the next to be seeded, has brought its first batch.  When the last one
has, the buffer is put in order. -/
def seed (s : Scan) (c : Cursor) (b : Batch) : Scan :=
  let buffer := s.buffer ++ b.candidates
  { s with
    cursors := s.cursors.set s.seeded (c.absorb b)
    buffer := if s.seeded + 1 = s.cursors.length then buffer.mergeSort Candidate.comesFirst else buffer
    seeded := s.seeded + 1
    work := s.work + b.visited }

/-- Whether the filter accepts a candidate; its event is read unless the index decides. -/
def judge (s : Scan) (v : View) (f : Faults) (next : Candidate) : Reading (Except ReadError Bool) :=
  if s.indexOnly then ⟨.ok (s.filter.matchesTime next.createdAt), f, []⟩
  else
    match v.readRow f next.seq with
    | (.error e, f) => ⟨.error e, f, []⟩
    | (.ok none, f) => ⟨.ok false, f, []⟩
    | (.ok (some row), f) => ⟨.ok (row.event?.any s.filter.accepts), f, row.report next.seq⟩

/-- The work of judging a candidate. -/
def judgingCost (s : Scan) : Nat := if s.indexOnly then 0 else fetchCost

/-- Reads the next batch of a cursor whose last candidate is about to leave the buffer. -/
def refill (s : Scan) (v : View) (f : Faults) (number : Nat) :
    Except ReadError (Option Batch) × Faults :=
  match s.cursors[number]? with
  | none => (.ok none, f)
  | some c =>
    if c.outstanding = 1 && c.isActive then
      match c.collect v f s.index s.filter.since number s.refillBatch with
      | (.ok b, f) => (.ok (some b), f)
      | (.error e, f) => (.error e, f)
    else (.ok none, f)

/-- The cursor of a candidate that leaves the buffer, behind its next batch if there is one. -/
def release (c : Cursor) (b : Option Batch) : Cursor :=
  let c := { c with outstanding := c.outstanding - 1 }
  match b with
  | none => c
  | some b => c.absorb b

/-- The scan after candidate `next` has left the buffer in front of `rest`. -/
def pop (s : Scan) (next : Candidate) (rest : List Candidate) (b : Option Batch) : Scan :=
  { s with
    cursors := s.cursors.modify next.cursor fun c => release c b
    buffer := match b with
      | none => rest
      | some b => rest.merge b.candidates Candidate.comesFirst
    work := s.work + match b with
      | none => 0
      | some b => b.visited }

/-- One step.  What a step reads is read before anything is changed, so that a step in which a read
fails can be taken again. -/
def advance (s : Scan) (v : View) (f : Faults) : Reading Advance :=
  match s.cursors[s.seeded]? with
  | some c =>
    match c.collect v f s.index s.filter.since s.seeded s.initialBatch with
    | (.error e, f) => ⟨.failed s e, f, []⟩
    | (.ok b, f) => ⟨.seeded (s.seed c b), f, []⟩
  | none =>
    match s.buffer with
    | [] => ⟨.finished, f, []⟩
    | next :: rest =>
      let s := { s with work := s.work + s.judgingCost }
      let judged := s.judge v f next
      match judged.outcome with
      | .error e => ⟨.failed s e, judged.faults, judged.reports⟩
      | .ok accepted =>
        match s.refill v judged.faults next.cursor with
        | (.error e, f) => ⟨.failed s e, f, judged.reports⟩
        | (.ok b, f) => ⟨.judged (s.pop next rest b) next.seq accepted, f, judged.reports⟩

/-! ### What is left to do -/

/-- What the items of a list come to together. -/
def total {α : Type} (g : α → Nat) : List α → Nat
  | [] => 0
  | a :: rest => g a + total g rest

/-- What a scan has still to do in a view: cursors to seed, entries to walk, candidates to judge. -/
def remaining (s : Scan) (v : View) : Nat :=
  (s.cursors.length - s.seeded) + total (fun c => (c.ahead v s.index).length) s.cursors
    + s.buffer.length

theorem total_set {α : Type} {g : α → Nat} {l : List α} {i : Nat} {a b : α}
    (h : l[i]? = some a) : total g (l.set i b) + g a = total g l + g b := by
  induction l generalizing i with
  | nil => simp at h
  | cons x rest ih =>
    cases i with
    | zero =>
      simp only [List.getElem?_cons_zero, Option.some.injEq] at h
      simp only [List.set_cons_zero, total, h]
      omega
    | succ i =>
      have := ih (i := i) (by simpa using h)
      simp only [List.set_cons_succ, total]
      omega

theorem remaining_seed_lt {s : Scan} {v : View} {f f' : Faults} {c : Cursor} {b : Batch}
    (hc : s.cursors[s.seeded]? = some c)
    (hb : c.collect v f s.index s.filter.since s.seeded s.initialBatch = (.ok b, f')) :
    (s.seed c b).remaining v < s.remaining v := by
  have hlen := (List.getElem?_eq_some_iff.1 hc).1
  have hsum := total_set (g := fun c => (c.ahead v s.index).length) (b := c.absorb b) hc
  have hstep := Cursor.length_ahead_absorb_le hb
  have hbuffer : (s.seed c b).buffer.length = s.buffer.length + b.candidates.length := by
    simp only [seed]
    split <;> simp [List.length_mergeSort]
  simp only [remaining, hbuffer]
  simp only [seed, List.length_set]
  omega

theorem ahead_release {c : Cursor} {v : View} {k : IndexKind} :
    (release c none).ahead v k = c.ahead v k := rfl

theorem ahead_release_some {c : Cursor} {v : View} {k : IndexKind} {b : Batch} :
    (release c (some b)).ahead v k = (c.absorb b).ahead v k := by
  simp only [release, Cursor.absorb]
  cases b.next <;> rfl

theorem modify_eq_set {α : Type} {l : List α} {i : Nat} {a : α} {f : α → α} (h : l[i]? = some a) :
    l.modify i f = l.set i (f a) := by
  induction l generalizing i with
  | nil => simp at h
  | cons x rest ih =>
    cases i with
    | zero =>
      simp only [List.getElem?_cons_zero, Option.some.injEq] at h
      simp [h]
    | succ i => simp [ih (by simpa using h)]

theorem remaining_pop_lt {s : Scan} {v : View} {f f' : Faults} {next : Candidate}
    {rest : List Candidate} {b : Option Batch} (hbuffer : s.buffer = next :: rest)
    (hb : s.refill v f next.cursor = (.ok b, f')) : (s.pop next rest b).remaining v < s.remaining v := by
  rw [refill] at hb
  cases hc : s.cursors[next.cursor]? with
  | none =>
    rw [hc] at hb
    cases hb
    have hmod : s.cursors.modify next.cursor (fun c => release c none) = s.cursors := by
      rw [List.modify_eq_self]
      exact List.getElem?_eq_none_iff.1 hc
    simp only [remaining, pop, hmod, hbuffer, List.length_cons]
    omega
  | some c =>
    rw [hc] at hb
    simp only at hb
    split at hb
    · cases hread : c.collect v f s.index s.filter.since next.cursor s.refillBatch with
      | mk r f'' =>
        rw [hread] at hb
        cases r with
        | error e => cases (Prod.mk.inj hb).1
        | ok b' =>
          cases hb
          have hstep := Cursor.length_ahead_absorb_le hread
          have hsum := total_set (g := fun c => (c.ahead v s.index).length)
            (b := release c (some b')) hc
          simp only [ahead_release_some] at hsum
          simp only [remaining, pop, modify_eq_set hc, List.length_set, List.length_merge, hbuffer,
            List.length_cons]
          omega
    · cases hb
      have hsum := total_set (g := fun c => (c.ahead v s.index).length) (b := release c none) hc
      simp only [ahead_release] at hsum
      simp only [remaining, pop, modify_eq_set hc, List.length_set, hbuffer, List.length_cons]
      omega

theorem remaining_lt_of_seeded {s s' : Scan} {v : View} {f : Faults}
    (h : (s.advance v f).outcome = .seeded s') : s'.remaining v < s.remaining v := by
  rw [advance] at h
  split at h
  · rename_i c hc
    split at h
    · cases h
    · rename_i b f' hb
      cases h
      exact remaining_seed_lt hc hb
  · split at h
    · cases h
    · simp only at h
      split at h
      · cases h
      · split at h <;> cases h

theorem remaining_lt_of_judged {s s' : Scan} {v : View} {f : Faults} {seq : Nat} {accepted : Bool}
    (h : (s.advance v f).outcome = .judged s' seq accepted) : s'.remaining v < s.remaining v := by
  rw [advance] at h
  split at h
  · split at h <;> cases h
  · split at h
    · cases h
    · rename_i next rest hbuffer
      simp only at h
      split at h
      · cases h
      · split at h
        · cases h
        · rename_i b f' hb
          cases h
          have key := remaining_pop_lt (s := { s with work := s.work + s.judgingCost }) hbuffer hb
          exact key

/-! ### Running -/

/-- Who runs a scan: told of every match it may end the scan, asked before every step it may pause
it.  Both may change its state. -/
structure Control (σ : Type) where
  /-- Told of a match; whether the scan ends here. -/
  onMatch : σ → Nat → σ × Bool
  /-- Shown the work so far; whether the scan pauses here. -/
  pause : σ → Nat → σ × Bool

/-- What a run leaves behind. -/
structure Run (σ : Type) where
  scan : Scan
  /-- Whether the scan is complete, or that a read failed. -/
  outcome : Except ReadError Bool
  state : σ
  faults : Faults
  reports : List CorruptRow

/-- Runs a scan against a view.  `reports` are the rows found unreadable so far. -/
def run {σ : Type} (control : Control σ) (v : View) (s : Scan) (f : Faults) (a : σ)
    (reports : List CorruptRow) : Run σ :=
  let s' := { s with work := s.work + 1 }
  match control.pause a s'.work with
  | (a, true) => ⟨s', .ok false, a, f, reports⟩
  | (a, false) =>
    match _h : s'.advance v f with
    | ⟨.finished, f, found⟩ => ⟨s', .ok true, a, f, reports ++ found⟩
    | ⟨.failed s e, f, found⟩ => ⟨s, .error e, a, f, reports ++ found⟩
    | ⟨.seeded s, f, found⟩ => run control v s f a (reports ++ found)
    | ⟨.judged s seq accepted, f, found⟩ =>
      if accepted then
        match control.onMatch a seq with
        | (a, true) => ⟨s, .ok true, a, f, reports ++ found⟩
        | (a, false) => run control v s f a (reports ++ found)
      else run control v s f a (reports ++ found)
termination_by s.remaining v
decreasing_by
  · exact Nat.lt_of_lt_of_eq (remaining_lt_of_seeded (congrArg Reading.outcome _h)) rfl
  · exact Nat.lt_of_lt_of_eq (remaining_lt_of_judged (congrArg Reading.outcome _h)) rfl
  · exact Nat.lt_of_lt_of_eq (remaining_lt_of_judged (congrArg Reading.outcome _h)) rfl

/-- A run that pauses has got on with the scan, or was paused before its first step. -/
theorem run_paused {σ : Type} {control : Control σ} {v : View} {s : Scan} {f : Faults} {a : σ}
    {reports : List CorruptRow} (h : (run control v s f a reports).outcome = .ok false) :
    ∃ a', control.pause a' (run control v s f a reports).scan.work
          = ((run control v s f a reports).state, true)
      ∧ ((run control v s f a reports).scan.remaining v < s.remaining v
        ∨ (run control v s f a reports).scan.remaining v = s.remaining v
          ∧ (run control v s f a reports).scan.work = s.work + 1 ∧ a' = a) := by
  fun_induction run control v s f a reports with
  | case1 s f a reports s' a' hp => exact ⟨a, hp, .inr ⟨rfl, rfl, rfl⟩⟩
  | case2 => cases h
  | case3 => cases h
  | case4 s f a reports s' a' hp s'' f' found hadv ih =>
    obtain ⟨b, hb, hlt⟩ := ih h
    have key : s''.remaining v < s.remaining v :=
      remaining_lt_of_seeded (s := s') (congrArg Reading.outcome hadv)
    exact ⟨b, hb, .inl (by omega)⟩
  | case5 => cases h
  | case6 s f a reports s' a' hp s'' seq f' found a'' hm hadv ih =>
    obtain ⟨b, hb, hlt⟩ := ih h
    have key : s''.remaining v < s.remaining v :=
      remaining_lt_of_judged (s := s') (congrArg Reading.outcome hadv)
    exact ⟨b, hb, .inl (by omega)⟩
  | case7 s f a reports s' a' hp s'' seq accepted f' found hadv hacc ih =>
    obtain ⟨b, hb, hlt⟩ := ih h
    have key : s''.remaining v < s.remaining v :=
      remaining_lt_of_judged (s := s') (congrArg Reading.outcome hadv)
    exact ⟨b, hb, .inl (by omega)⟩

end Scan

end EventRelay
