import EventRelay.Scan.Cursor
import EventRelay.Proofs.Index.KeyOrder
/-!
# The layouts of index keys

The stems of one layout have one length, all but those of tags.  Where they do, the first bytes of two
keys decide as the fields do, and only between equal fields do the last eight bytes matter: the keys
stand in the order of fields, then time.  Tag values have any length, and a longer value may go on
with the bytes of a time; the size of a key is then what tells the stems apart.

Main statements: `Bytes.cmp_append_of_length`, `IndexKey.cmp_make_of_length` (order),
`IndexKey.make_eq_make_iff` (a key says its stem and its time), `IndexKey.time?_eq_some_iff` and
`IndexKey.ordered_and_told_apart`, all of it for every layout.
-/

namespace EventRelay

open Std

namespace Bytes

/-- Beginnings of one length are compared before what follows them. -/
theorem cmp_append_of_length {a b s t : Bytes} (h : a.length = b.length) :
    cmp (a ++ s) (b ++ t) = (cmp a b).then (cmp s t) := by
  induction a generalizing b with
  | nil =>
    cases b with
    | nil => rfl
    | cons => cases h
  | cons x a ih =>
    cases b with
    | nil => cases h
    | cons y b =>
      have hlen : a.length = b.length := by simpa using h
      rw [List.cons_append, List.cons_append, cmp, cmp, ih hlen]
      by_cases hxy : x < y
      · simp [hxy]
      · by_cases hyx : y < x
        · simp [hxy, hyx]
        · simp [hxy, hyx]

/-- Words are ordered like their bytes. -/
theorem cmp_bigEndian_eq_compare {x y : UInt64} : cmp (bigEndian x) (bigEndian y) = compare x y := by
  rw [cmp_bigEndian]
  change compareOfLessAndEq x.toNat y.toNat = compareOfLessAndEq x y
  simp only [compareOfLessAndEq, UInt64.lt_iff_toNat_lt, ← UInt64.toNat_inj]

end Bytes

namespace IndexKey

/-- The keys of stems of one length are ordered by stem, then by time. -/
theorem cmp_make_of_length {stem other : Bytes} {s t : UInt64} (h : stem.length = other.length) :
    Bytes.cmp (make stem s) (make other t) = (Bytes.cmp stem other).then (compare s t) := by
  rw [make, make, Bytes.cmp_append_of_length h, Bytes.cmp_bigEndian_eq_compare]

/-- A key says both its stem and its time, whatever the lengths of the stems. -/
theorem make_eq_make_iff {stem other : Bytes} {s t : UInt64} :
    make stem s = make other t ↔ stem = other ∧ s = t := by
  constructor
  · intro h
    have hstem : stem = other := ownedBy_make_iff.1 (h ▸ ownedBy_make)
    cases hstem
    exact ⟨rfl, make_inj h⟩
  · rintro ⟨rfl, rfl⟩
    rfl

/-- The keys with a time are the ones that are made with it. -/
theorem time?_eq_some_iff {key : Bytes} {t : UInt64} :
    time? key = some t ↔ ∃ stem, key = make stem t := by
  constructor
  · intro h
    rw [time?] at h
    split at h
    · rename_i hlen
      have ht : t = Bytes.ofBigEndian (key.drop (key.length - 8)) := (Option.some.inj h).symm
      refine ⟨key.take (key.length - 8), ?_⟩
      rw [make, ht, Bytes.bigEndian_ofBigEndian (by simp; omega), List.take_append_drop]
    · cases h
  · rintro ⟨stem, rfl⟩
    exact time?_make stem t

theorem cmp_make_ofAuthorKind {a b : Id} {k l s t : UInt64} :
    Bytes.cmp (make (Stem.ofAuthorKind a k) s) (make (Stem.ofAuthorKind b l) t)
      = ((Id.cmp a b).then (compare k l)).then (compare s t) := by
  have hlen : a.bytes.length = b.bytes.length := by rw [a.length_bytes, b.length_bytes]
  rw [cmp_make_of_length (by simp [Stem.ofAuthorKind, hlen]), Stem.ofAuthorKind, Stem.ofAuthorKind,
    Bytes.cmp_append_of_length hlen, Bytes.cmp_bigEndian_eq_compare, Id.cmp]

/-- In every layout with fields of fixed size the bytes of keys are ordered like the fields and then
the time.  Keys of any two stems are told apart, the time is read back from any key, and a cursor
owns the keys of its stem alone; so a tag value is taken for no other one, however long. -/
theorem ordered_and_told_apart :
    (∀ (i j : Id) (s t : UInt64), Bytes.cmp (make (Stem.ofId i) s) (make (Stem.ofId j) t)
      = (Id.cmp i j).then (compare s t)) ∧
    (∀ (a b : Id) (s t : UInt64), Bytes.cmp (make (Stem.ofAuthor a) s) (make (Stem.ofAuthor b) t)
      = (Id.cmp a b).then (compare s t)) ∧
    (∀ k l s t : UInt64, Bytes.cmp (make (Stem.ofKind k) s) (make (Stem.ofKind l) t)
      = (compare k l).then (compare s t)) ∧
    (∀ (a b : Id) (k l s t : UInt64),
      Bytes.cmp (make (Stem.ofAuthorKind a k) s) (make (Stem.ofAuthorKind b l) t)
        = ((Id.cmp a b).then (compare k l)).then (compare s t)) ∧
    (∀ s t : UInt64, Bytes.cmp (make [] s) (make [] t) = compare s t) ∧
    (∀ (stem other : Bytes) (s t : UInt64), make stem s = make other t ↔ stem = other ∧ s = t) ∧
    (∀ (key : Bytes) (t : UInt64), time? key = some t ↔ ∃ stem, key = make stem t) ∧
    (∀ (stem : Bytes) (t : UInt64), time? (make stem t) = some t) ∧
    (∀ (stem other : Bytes) (upTo t : UInt64),
      (Cursor.start stem upTo).owns (make other t) = true ↔ stem = other) ∧
    (∀ (name name' : UInt8) (value value' : Bytes) (upTo t : UInt64),
      (Cursor.start (Stem.ofTag name value) upTo).owns (make (Stem.ofTag name' value') t) = true
        ↔ name = name' ∧ value = value') := by
  have hid : ∀ i j : Id, i.bytes.length = j.bytes.length := by
    intro i j
    rw [i.length_bytes, j.length_bytes]
  refine ⟨?ids, ?authors, ?kinds, ?authorKinds, ?times, ?keys, ?time, ?readBack, ?owned, ?tags⟩
  case ids => exact fun i j _ _ => cmp_make_of_length (hid i j)
  case authors => exact fun a b _ _ => cmp_make_of_length (hid a b)
  case kinds =>
    intro k l s t
    rw [cmp_make_of_length (by simp [Stem.ofKind]), Stem.ofKind, Stem.ofKind,
      Bytes.cmp_bigEndian_eq_compare]
  case authorKinds => exact fun _ _ _ _ _ _ => cmp_make_ofAuthorKind
  case times =>
    intro s t
    rw [cmp_make_of_length rfl]
    rfl
  case keys => exact fun _ _ _ _ => make_eq_make_iff
  case time => exact fun _ _ => time?_eq_some_iff
  case readBack => exact time?_make
  case owned => exact fun _ _ _ _ => ownedBy_make_iff
  case tags =>
    intro name name' value value' upTo t
    refine ownedBy_make_iff.trans ?_
    simp [Cursor.start, Stem.ofTag]

-- The longer value starts with all of the shorter one's key.
example : (Cursor.start (Stem.ofTag 116 [1]) 9).owns
    (make (Stem.ofTag 116 ([1] ++ Bytes.bigEndian 5)) 7) = false := by
  decide

end IndexKey

end EventRelay
