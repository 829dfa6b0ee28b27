import EventRelay.Index
/-!
# Index tables

A table holds the entries of one index: keys with the seq of the event that has the key.  It lists
them from the last to the first, which is the order of every walk: `Table.back` is what a walk that
starts at a key and a bound on the seq passes.

Main statements: `mem_back` (a walk passes the entries at or below its start) and `back_of_append`
(a walk that starts at an entry passes that entry and the ones listed behind it).
-/

namespace EventRelay

open Std

/-- A key and the seq of an event that has it. -/
structure Entry where
  key : Bytes
  seq : Nat
  deriving DecidableEq

namespace Entry

/-- The order of a backward walk: greater keys first, greater seqs first under one key. -/
def cmpBack (a b : Entry) : Ordering := (Bytes.cmp b.key a.key).then (compare b.seq a.seq)

theorem cmpBack_eq_swap {a b : Entry} : cmpBack a b = (cmpBack b a).swap := by
  rw [cmpBack, cmpBack, Ordering.swap_then, ← Bytes.cmp_eq_swap, ← OrientedCmp.eq_swap]

theorem cmpBack_lt_iff {a b : Entry} :
    cmpBack a b = .lt ↔ Bytes.cmp b.key a.key = .lt ∨ (b.key = a.key ∧ b.seq < a.seq) := by
  rw [cmpBack]
  cases h : Bytes.cmp b.key a.key with
  | lt => simp
  | eq =>
    have := LawfulEqCmp.eq_of_compare h
    simp [this, Nat.compare_eq_lt]
  | gt =>
    have hne : b.key ≠ a.key := by
      intro e
      rw [e, Bytes.cmp_self] at h
      cases h
    simp [hne]

instance : LawfulEqCmp cmpBack where
  compare_self {a} := by simp [cmpBack, Bytes.cmp_self]
  eq_of_compare {a b} h := by
    rw [cmpBack, Ordering.then_eq_eq] at h
    obtain ⟨a, s⟩ := a
    obtain ⟨b, t⟩ := b
    cases LawfulEqCmp.eq_of_compare h.1
    cases LawfulEqCmp.eq_of_compare h.2
    rfl

theorem cmpBack_lt_trans {a b c : Entry} (hab : cmpBack a b = .lt) (hbc : cmpBack b c = .lt) :
    cmpBack a c = .lt := by
  rw [cmpBack_lt_iff] at *
  rcases hab with hab | ⟨hab, ha⟩ <;> rcases hbc with hbc | ⟨hbc, hb⟩
  · exact .inl (TransCmp.lt_trans hbc hab)
  · exact .inl (hbc ▸ hab)
  · exact .inl (hab ▸ hbc)
  · exact .inr ⟨hbc.trans hab, by omega⟩

instance : TransCmp cmpBack where
  eq_swap := cmpBack_eq_swap
  isLE_trans {a b c} hab hbc := by
    cases h : cmpBack a b with
    | gt => simp [h] at hab
    | eq => cases LawfulEqCmp.eq_of_compare h; exact hbc
    | lt =>
      cases h' : cmpBack b c with
      | gt => simp [h'] at hbc
      | eq => cases LawfulEqCmp.eq_of_compare h'; simp [h]
      | lt => simp [cmpBack_lt_trans h h']

/-- Whether an entry lies above the start of a walk; without a bound every seq under the key of the
start is at or below it. -/
def isAbove (key : Bytes) (bound : Option Nat) (e : Entry) : Bool :=
  match Bytes.cmp e.key key with
  | .gt => true
  | .eq => bound.any fun b => b < e.seq
  | .lt => false

theorem isAbove_iff_cmpBack {e x : Entry} :
    isAbove e.key (some e.seq) x = true ↔ cmpBack x e = .lt := by
  rw [isAbove, cmpBack, Bytes.cmp_eq_swap e.key]
  cases Bytes.cmp x.key e.key <;> simp [Nat.compare_eq_lt]

/-- What lies in front of an entry above the start lies above it, too. -/
theorem isAbove_of_cmpBack {key : Bytes} {bound : Option Nat} {a b : Entry}
    (hab : cmpBack a b = .lt) (hb : isAbove key bound b = true) : isAbove key bound a = true := by
  rw [isAbove] at hb ⊢
  rcases cmpBack_lt_iff.1 hab with h | ⟨h, hseq⟩
  · cases hk : Bytes.cmp b.key key with
    | lt => simp [hk] at hb
    | eq =>
      cases LawfulEqCmp.eq_of_compare hk
      rw [OrientedCmp.gt_iff_lt.2 h]
    | gt => rw [OrientedCmp.gt_iff_lt.2 (TransCmp.lt_trans (OrientedCmp.gt_iff_lt.1 hk) h)]
  · rw [← h]
    cases hk : Bytes.cmp b.key key with
    | lt => simp [hk] at hb
    | eq =>
      cases bound with
      | none => simp [hk] at hb
      | some n =>
        simp [hk] at hb ⊢
        omega
    | gt => rfl

end Entry

/-- The entries of one index, the last first. -/
abbrev Table := OrderedSet Entry Entry.cmpBack

namespace Table

/-- The entries at or below a key and a bound on the seq, the last first. -/
def back (t : Table) (key : Bytes) (bound : Option Nat) : List Entry :=
  t.toList.dropWhile (Entry.isAbove key bound)

/-- What a walk passes are the entries that are not above its start. -/
theorem back_eq_filter {t : Table} {key : Bytes} {bound : Option Nat} :
    t.back key bound = t.toList.filter fun e => !e.isAbove key bound :=
  dropWhile_eq_filter (t.ordered.imp fun hab hb => Entry.isAbove_of_cmpBack hab hb)

theorem mem_back {t : Table} {key : Bytes} {bound : Option Nat} {x : Entry} :
    x ∈ t.back key bound ↔ x ∈ t ∧ Entry.isAbove key bound x = false := by
  rw [back_eq_filter, List.mem_filter, Bool.not_eq_true', OrderedSet.mem_def]

theorem back_of_append {t : Table} {passed rest : List Entry} {e : Entry}
    (h : t.toList = passed ++ e :: rest) : t.back e.key (some e.seq) = e :: rest := by
  have hord := t.ordered
  rw [h] at hord
  have hpassed := (List.pairwise_append.1 hord).2.2
  rw [back, h, List.dropWhile_append_of_pos]
  · rw [List.dropWhile_cons, if_neg]
    have : Entry.cmpBack e e = .eq := ReflCmp.compare_self
    simp [Entry.isAbove_iff_cmpBack, this]
  · intro x hx
    exact Entry.isAbove_iff_cmpBack.2 (hpassed x hx e (by simp))

end Table

/-- The six tables of a store. -/
structure Indices where
  id : Table
  author : Table
  kind : Table
  authorKind : Table
  tag : Table
  createdAt : Table
  deriving DecidableEq

namespace Indices

def empty : Indices := ⟨.empty, .empty, .empty, .empty, .empty, .empty⟩

def get (i : Indices) : IndexKind → Table
  | .id => i.id
  | .author => i.author
  | .kind => i.kind
  | .authorKind => i.authorKind
  | .tag => i.tag
  | .createdAt => i.createdAt

def modify (i : Indices) (k : IndexKind) (f : Table → Table) : Indices :=
  match k with
  | .id => { i with id := f i.id }
  | .author => { i with author := f i.author }
  | .kind => { i with kind := f i.kind }
  | .authorKind => { i with authorKind := f i.authorKind }
  | .tag => { i with tag := f i.tag }
  | .createdAt => { i with createdAt := f i.createdAt }

/-- The same change of every table. -/
def map (i : Indices) (f : Table → Table) : Indices :=
  ⟨f i.id, f i.author, f i.kind, f i.authorKind, f i.tag, f i.createdAt⟩

@[simp] theorem get_modify_self {i : Indices} {k : IndexKind} {f : Table → Table} :
    (i.modify k f).get k = f (i.get k) := by
  cases k <;> rfl

theorem get_modify_of_ne {i : Indices} {j k : IndexKind} {f : Table → Table} (h : j ≠ k) :
    (i.modify k f).get j = i.get j := by
  cases k <;> cases j <;> first | rfl | exact absurd rfl h

@[simp] theorem get_map {i : Indices} {k : IndexKind} {f : Table → Table} :
    (i.map f).get k = f (i.get k) := by
  cases k <;> rfl

@[simp] theorem get_empty {k : IndexKind} : empty.get k = .empty := by
  cases k <;> rfl

/-- Adds the entries of an event stored under `seq`. -/
def add (i : Indices) (seq : Nat) (entries : List (IndexKind × Bytes)) : Indices :=
  entries.foldl (fun i e => i.modify e.1 (·.insert ⟨e.2, seq⟩)) i

/-- Takes the entries of an event stored under `seq` away. -/
def remove (i : Indices) (seq : Nat) (entries : List (IndexKind × Bytes)) : Indices :=
  entries.foldl (fun i e => i.modify e.1 (·.erase ⟨e.2, seq⟩)) i

/-- Takes every entry of `seq` away. -/
def removeSeq (i : Indices) (seq : Nat) : Indices := i.map (·.filter fun e => e.seq ≠ seq)

end Indices

end EventRelay
