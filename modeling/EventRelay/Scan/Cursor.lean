import EventRelay.Store.View
/-!
# Cursors

A cursor walks the entries of one stem backwards, batch by batch, and remembers where the next batch
starts.  A batch ends in front of the entry where the next one starts; if the walk leaves the stem,
falls behind the earliest time asked for or runs out of entries, the cursor is exhausted.

Main statement: `length_ahead_absorb_le`, a batch takes at least as many entries off what lies ahead
of the cursor as it brings candidates.
-/

namespace EventRelay

/-- An index entry that waits to be judged, and the number of the cursor that brought it. -/
structure Candidate where
  seq : Nat
  createdAt : UInt64
  cursor : Nat
  deriving DecidableEq

/-- The order of delivery: newer candidates first, among those of one time the greater seq. -/
def Candidate.comesFirst (a b : Candidate) : Bool :=
  b.createdAt < a.createdAt || (a.createdAt = b.createdAt && b.seq ≤ a.seq)

structure Cursor where
  stem : Bytes
  /-- The key where the next batch starts; none once the cursor is exhausted. -/
  resumeKey : Option Bytes
  /-- The greatest seq to take under that key; none before the first batch. -/
  resumeSeq : Option Nat
  /-- How many of its candidates still wait. -/
  outstanding : Nat
  deriving DecidableEq

/-- What one walk brings. -/
structure Batch where
  candidates : List Candidate
  /-- Where the next batch starts. -/
  next : Option Entry
  /-- How many entries were looked at. -/
  visited : Nat
  deriving DecidableEq

namespace Cursor

/-- A cursor at the last key of a stem that is not newer than `upTo`. -/
def start (stem : Bytes) (upTo : UInt64) : Cursor := ⟨stem, some (IndexKey.make stem upTo), none, 0⟩

def isActive (c : Cursor) : Bool := c.resumeKey.isSome

def owns (c : Cursor) (key : Bytes) : Bool := IndexKey.ownedBy c.stem key

/-- Takes up to `limit` candidates off a list of entries. -/
def gather (stem : Bytes) (since : UInt64) (number : Nat) : Nat → List Entry → Batch
  | _, [] => ⟨[], none, 0⟩
  | 0, e :: _ => ⟨[], some e, 0⟩
  | limit + 1, e :: rest =>
    if IndexKey.ownedBy stem e.key then
      match IndexKey.time? e.key with
      | none => ⟨[], none, 1⟩
      | some time =>
        if time < since then ⟨[], none, 1⟩
        else
          let b := gather stem since number limit rest
          ⟨⟨e.seq, time, number⟩ :: b.candidates, b.next, b.visited + 1⟩
    else ⟨[], none, 1⟩

/-- The entries that a cursor has still to walk. -/
def ahead (c : Cursor) (v : View) (k : IndexKind) : List Entry :=
  match c.resumeKey with
  | none => []
  | some key => v.back k key c.resumeSeq

/-- Reads a batch of up to `limit` candidates.  An exhausted cursor reads nothing. -/
def collect (c : Cursor) (v : View) (f : Faults) (k : IndexKind) (since : UInt64) (number limit : Nat) :
    Except ReadError Batch × Faults :=
  if c.isActive then f.read .scanBack (gather c.stem since number limit (c.ahead v k))
  else (.ok ⟨[], none, 0⟩, f)

/-- The cursor behind a batch. -/
def absorb (c : Cursor) (b : Batch) : Cursor :=
  let outstanding := c.outstanding + b.candidates.length
  match b.next with
  | some e => { c with resumeKey := some e.key, resumeSeq := some e.seq, outstanding }
  | none => { c with resumeKey := none, outstanding }

/-! ### Progress -/

theorem length_gather_le {stem : Bytes} {since : UInt64} {number limit : Nat} {l : List Entry} :
    (gather stem since number limit l).candidates.length ≤ l.length := by
  induction l generalizing limit with
  | nil => cases limit <;> simp [gather]
  | cons e rest ih =>
    cases limit with
    | zero => simp [gather]
    | succ limit =>
      rw [gather]
      split
      · split
        · simp
        · split
          · simp
          · simpa using ih
      · simp

/-- The next batch starts behind as many entries as this one brings candidates. -/
theorem eq_append_of_next {stem : Bytes} {since : UInt64} {number limit : Nat} {l : List Entry}
    {e : Entry} (h : (gather stem since number limit l).next = some e) :
    ∃ passed rest, l = passed ++ e :: rest ∧
      passed.length = (gather stem since number limit l).candidates.length := by
  induction l generalizing limit with
  | nil => cases limit <;> simp [gather] at h
  | cons x rest ih =>
    cases limit with
    | zero =>
      simp only [gather, Option.some.injEq] at h
      exact ⟨[], rest, by simp [h], by simp [gather]⟩
    | succ limit =>
      rw [gather] at h ⊢
      split at h
      · rename_i howned
        rw [if_pos howned]
        split at h
        · simp at h
        · rename_i time htime
          split at h
          · simp at h
          · rename_i hsince
            obtain ⟨passed, tail, hl, hlen⟩ := ih h
            refine ⟨x :: passed, tail, by simp [hl], ?_⟩
            simp [hsince, hlen]
      · simp at h

theorem ahead_absorb_none {c : Cursor} {v : View} {k : IndexKind} {b : Batch} (h : b.next = none) :
    (c.absorb b).ahead v k = [] := by
  simp [absorb, h, ahead]

theorem length_ahead_absorb_le {c : Cursor} {v : View} {k : IndexKind} {since : UInt64}
    {number limit : Nat} {f f' : Faults} {b : Batch}
    (h : c.collect v f k since number limit = (.ok b, f')) :
    ((c.absorb b).ahead v k).length + b.candidates.length ≤ (c.ahead v k).length := by
  rw [collect] at h
  split at h
  · rename_i hactive
    have hb : b = gather c.stem since number limit (c.ahead v k) := by
      rw [Faults.read] at h
      split at h
      · exact (Except.ok.inj (Prod.mk.inj h).1).symm
      · cases (Prod.mk.inj h).1
    cases hnext : b.next with
    | none =>
      rw [ahead_absorb_none hnext, hb]
      simpa using length_gather_le
    | some e =>
      obtain ⟨passed, rest, hl, hlen⟩ := eq_append_of_next (hb ▸ hnext)
      obtain ⟨key, hkey⟩ := Option.isSome_iff_exists.1 hactive
      have hsplit : (v.indices.get k).toList =
          ((v.indices.get k).toList.takeWhile (Entry.isAbove key c.resumeSeq) ++ passed)
            ++ e :: rest := by
        rw [List.append_assoc, ← hl]
        simp [ahead, hkey, View.back, Table.back]
      have hahead : (c.absorb b).ahead v k = e :: rest := by
        simp only [ahead, absorb, hnext, View.back]
        exact Table.back_of_append hsplit
      rw [hahead, hb, ← hlen, hl]
      simp
      omega
  · cases h
    simp [absorb, ahead]

end Cursor

end EventRelay
