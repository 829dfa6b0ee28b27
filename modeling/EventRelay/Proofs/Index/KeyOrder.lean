import Mathlib.Algebra.Group.Nat.Defs
import EventRelay.Index.Table
/-!
# The order of index keys

The keys of one stem are ordered by time, and they are all that stands between two of them once no key
of another size begins with the stem.

Main statements: `Bytes.cmp_bigEndian` (words are ordered like their bytes), `IndexKey.ownedBy_iff_exists`
(the keys of a stem are the ones that are made from it), `IndexKey.cmp_make` (they are ordered by
time) and `IndexKey.isPrefix_of_between` (a key between two keys of a stem begins with the stem).
-/

namespace EventRelay

open Std

namespace Bytes

/-! ### Words and their bytes -/

theorem value_cons {b : UInt8} {s : Bytes} :
    value (b :: s) = b.toNat * 256 ^ s.length + value s := by
  have key : ∀ (s : Bytes) (n : Nat),
      s.foldl (fun x b => x * 256 + b.toNat) n = n * 256 ^ s.length + value s := by
    intro s
    induction s with
    | nil => intro n; simp [value]
    | cons c s ih =>
      intro n
      have hc : value (c :: s) = c.toNat * 256 ^ s.length + value s := by
        rw [value, List.foldl_cons, ih]
        simp
      rw [List.foldl_cons, ih, hc, List.length_cons, Nat.pow_succ, Nat.add_mul, Nat.mul_assoc,
        Nat.mul_comm 256, Nat.add_assoc]
  rw [value, List.foldl_cons, key]
  simp

theorem value_lt (s : Bytes) : value s < 256 ^ s.length := by
  induction s with
  | nil => simp [value]
  | cons b s ih =>
    have hb : b.toNat + 1 ≤ 256 := b.toNat_lt
    have hmul := Nat.mul_le_mul_right (256 ^ s.length) hb
    rw [value_cons, List.length_cons, Nat.pow_succ, Nat.mul_comm _ 256]
    rw [Nat.add_mul] at hmul
    omega

/-- Strings of one length are ordered like the numbers they denote. -/
theorem cmp_eq_compare_value {s t : Bytes} (h : s.length = t.length) :
    cmp s t = compare (value s) (value t) := by
  induction s generalizing t with
  | nil =>
    cases t with
    | nil => rfl
    | cons => cases h
  | cons a s ih =>
    cases t with
    | nil => cases h
    | cons b t =>
      have hlen : s.length = t.length := by simpa using h
      have hs := value_lt s
      have ht := value_lt t
      rw [hlen] at hs
      rw [cmp, value_cons, value_cons, hlen]
      split
      -- a smaller first digit outweighs all the digits behind it
      · rename_i hab
        have hmul := Nat.mul_le_mul_right (256 ^ t.length) (UInt8.lt_iff_toNat_lt.1 hab)
        rw [Nat.succ_mul] at hmul
        exact (Nat.compare_eq_lt.2 (by omega)).symm
      · split
        · rename_i hba
          have hmul := Nat.mul_le_mul_right (256 ^ t.length) (UInt8.lt_iff_toNat_lt.1 hba)
          rw [Nat.succ_mul] at hmul
          exact (Nat.compare_eq_gt.2 (by omega)).symm
        · rename_i hab hba
          have heq : a = b := UInt8.le_antisymm (UInt8.not_lt.1 hba) (UInt8.not_lt.1 hab)
          rw [ih hlen, heq]
          simp only [Nat.compare_eq_ite_lt, Nat.add_lt_add_iff_left]

theorem value_bigEndian {x : UInt64} : value (bigEndian x) = x.toNat :=
  value_digits (Nat.lt_of_lt_of_eq x.toNat_lt (by decide))

/-- Words are ordered like their bytes. -/
theorem cmp_bigEndian {x y : UInt64} : cmp (bigEndian x) (bigEndian y) = compare x.toNat y.toNat := by
  rw [cmp_eq_compare_value (by simp), value_bigEndian, value_bigEndian]

theorem bigEndian_ofBigEndian {s : Bytes} (h : s.length = 8) : bigEndian (ofBigEndian s) = s := by
  apply eq_of_cmp
  have hs := value_lt s
  rw [h] at hs
  rw [cmp_eq_compare_value (by simp [h]), value_bigEndian, ofBigEndian,
    UInt64.toNat_ofNat_of_lt' (by simpa using hs)]
  exact Nat.compare_eq_eq.2 rfl

theorem cmp_ne_gt_trans {a b c : Bytes} (hab : cmp a b ≠ .gt) (hbc : cmp b c ≠ .gt) :
    cmp a c ≠ .gt := by
  rw [ne_eq, ← Ordering.isLE_eq_false, Bool.not_eq_false] at *
  exact TransCmp.isLE_trans hab hbc

/-! ### Common beginnings -/

theorem cmp_append_left {s a b : Bytes} : cmp (s ++ a) (s ++ b) = cmp a b := by
  induction s with
  | nil => rfl
  | cons x s ih => simp [cmp, ih]

/-- What lies between two strings with a common beginning has that beginning. -/
theorem isPrefix_of_between {s a b k : Bytes} (ha : cmp (s ++ a) k ≠ .gt) (hb : cmp k (s ++ b) ≠ .gt) :
    s <+: k := by
  induction s generalizing k with
  | nil => exact List.nil_prefix
  | cons x s ih =>
    cases k with
    | nil => simp [cmp] at ha
    | cons y k =>
      have hxy : ¬ y < x := by
        intro hlt
        have : ¬ x < y := UInt8.not_lt.2 (UInt8.le_of_lt hlt)
        simp [cmp, hlt, this] at ha
      have hyx : ¬ x < y := by
        intro hlt
        simp [cmp, hlt, hxy] at hb
      have heq : x = y := UInt8.le_antisymm (UInt8.not_lt.1 hxy) (UInt8.not_lt.1 hyx)
      subst heq
      simp only [List.cons_append, cmp, hxy, if_false] at ha hb
      exact (List.prefix_cons_inj x).2 (ih ha hb)

end Bytes

namespace IndexKey

/-- The keys of a stem are the ones that are made from it. -/
theorem ownedBy_iff_exists {stem key : Bytes} :
    ownedBy stem key = true ↔ ∃ time, key = make stem time := by
  constructor
  · intro h
    simp only [ownedBy, Bool.and_eq_true, decide_eq_true_eq] at h
    obtain ⟨hlen, htake⟩ := h
    refine ⟨Bytes.ofBigEndian (key.drop stem.length), ?_⟩
    rw [make, Bytes.bigEndian_ofBigEndian (by simp [hlen])]
    conv => lhs; rw [← List.take_append_drop stem.length key, htake]
  · rintro ⟨time, rfl⟩
    exact ownedBy_make_iff.2 rfl

theorem ownedBy_make {stem : Bytes} {time : UInt64} : ownedBy stem (make stem time) = true :=
  ownedBy_make_iff.2 rfl

/-- The keys of a stem are ordered by time. -/
theorem cmp_make {stem : Bytes} {s t : UInt64} :
    Bytes.cmp (make stem s) (make stem t) = compare s.toNat t.toNat := by
  rw [make, make, Bytes.cmp_append_left, Bytes.cmp_bigEndian]

/-- The times of two keys of a stem tell the keys apart. -/
theorem make_inj {stem : Bytes} {s t : UInt64} (h : make stem s = make stem t) : s = t := by
  have := congrArg time? h
  simpa using this

/-- A key between two keys of a stem begins with the stem. -/
theorem isPrefix_of_between {stem key : Bytes} {s t : UInt64}
    (hs : Bytes.cmp (make stem s) key ≠ .gt) (ht : Bytes.cmp key (make stem t) ≠ .gt) :
    stem <+: key :=
  Bytes.isPrefix_of_between hs ht

/-- A key that begins with a stem and has the size of its keys is one of them. -/
theorem ownedBy_of_isPrefix {stem key : Bytes} (h : stem <+: key)
    (hlen : key.length = stem.length + 8) : ownedBy stem key = true := by
  simp only [ownedBy, hlen, Bool.and_eq_true, decide_eq_true_eq, true_and]
  exact (List.prefix_iff_eq_take.1 h).symm

end IndexKey

end EventRelay
