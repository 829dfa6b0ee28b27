/-!
# Byte strings

Byte strings are lists of bytes, ordered lexicographically.  A 64-bit word is written as its eight
big-endian base-256 digits, so that the order of words is the order of their bytes.

Main statements: `Bytes.cmp_eq_compare` (the order is the lexicographic one), `ofBigEndian_bigEndian`
(a word is read back from its digits) and `length_bigEndian`.
-/

namespace EventRelay

open Std

abbrev Bytes := List UInt8

namespace Bytes

/-- Lexicographic order: the first differing byte decides, and a proper beginning comes first. -/
def cmp : Bytes → Bytes → Ordering
  | [], [] => .eq
  | [], _ :: _ => .lt
  | _ :: _, [] => .gt
  | a :: s, b :: t => if a < b then .lt else if b < a then .gt else cmp s t

theorem cmp_eq_compare : cmp = (compare : Bytes → Bytes → Ordering) := by
  funext s t
  induction s generalizing t with
  | nil => cases t <;> rfl
  | cons a s ih =>
    cases t with
    | nil => rfl
    | cons b t =>
      rw [cmp, ih, List.compare_cons_cons]
      change _ = (compareOfLessAndEq a b).then (compare s t)
      by_cases h : a < b
      · simp [compareOfLessAndEq, h]
      · by_cases h' : b < a
        · have : a ≠ b := fun e => UInt8.lt_irrefl b (e ▸ h')
          simp [compareOfLessAndEq, h, h', this]
        · have : a = b := UInt8.le_antisymm (UInt8.not_lt.1 h') (UInt8.not_lt.1 h)
          simp [compareOfLessAndEq, this]

instance : TransCmp cmp := by
  rw [cmp_eq_compare]
  infer_instance

instance : LawfulEqCmp cmp := by
  rw [cmp_eq_compare]
  infer_instance

theorem cmp_self (s : Bytes) : cmp s s = .eq := ReflCmp.compare_self

theorem cmp_eq_swap (s t : Bytes) : cmp s t = (cmp t s).swap := OrientedCmp.eq_swap

theorem eq_of_cmp {s t : Bytes} (h : cmp s t = .eq) : s = t := LawfulEqCmp.eq_of_compare h

/-- The last `n` base-256 digits of a number, most significant first. -/
def digits : Nat → Nat → Bytes
  | 0, _ => []
  | n + 1, x => digits n (x / 256) ++ [UInt8.ofNat (x % 256)]

@[simp] theorem length_digits {n x : Nat} : (digits n x).length = n := by
  induction n generalizing x with
  | zero => rfl
  | succ n ih => simp [digits, ih]

/-- The number that a string of base-256 digits denotes. -/
def value (s : Bytes) : Nat := s.foldl (fun x b => x * 256 + b.toNat) 0

theorem value_append_singleton {s : Bytes} {b : UInt8} : value (s ++ [b]) = value s * 256 + b.toNat := by
  simp [value]

theorem value_digits {n x : Nat} (h : x < Nat.pow 256 n) : value (digits n x) = x := by
  induction n generalizing x with
  | zero => simp_all [digits, value]
  | succ n ih =>
    have hx : x / 256 < Nat.pow 256 n := (Nat.div_lt_iff_lt_mul (by decide)).2 h
    rw [digits, value_append_singleton, ih hx]
    have : (UInt8.ofNat (x % 256)).toNat = x % 256 := by
      simp
    omega

/-- A word as eight bytes, most significant first. -/
def bigEndian (x : UInt64) : Bytes := digits 8 x.toNat

@[simp] theorem length_bigEndian {x : UInt64} : (bigEndian x).length = 8 := length_digits

/-- Reads a word from its big-endian bytes. -/
def ofBigEndian (s : Bytes) : UInt64 := UInt64.ofNat (value s)

@[simp] theorem ofBigEndian_bigEndian {x : UInt64} : ofBigEndian (bigEndian x) = x := by
  rw [ofBigEndian, bigEndian, value_digits (Nat.lt_of_lt_of_eq x.toNat_lt (by decide))]
  simp

end Bytes

end EventRelay
