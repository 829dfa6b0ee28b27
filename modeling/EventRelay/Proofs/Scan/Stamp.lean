/-!
# Stamps

Events are delivered newest first, those of one time by descending seq.  The order looks at nothing but
the time and the seq of an event, and it leaves no choice: stamps have one order only.

Main statements: `eq_of_perm` and `sort_cons`.
-/

namespace EventRelay

/-- When an event was written, and the seq under which it is stored. -/
structure Stamp where
  time : UInt64
  seq : Nat
  deriving DecidableEq

namespace Stamp

/-- The order of delivery. -/
def comesFirst (x y : Stamp) : Bool := y.time < x.time || (x.time = y.time && y.seq ≤ x.seq)

theorem comesFirst_iff {x y : Stamp} :
    comesFirst x y = true ↔ y.time < x.time ∨ (x.time = y.time ∧ y.seq ≤ x.seq) := by
  simp [comesFirst]

theorem comesFirst_trans (x y z : Stamp) (hxy : comesFirst x y = true) (hyz : comesFirst y z = true) :
    comesFirst x z = true := by
  rw [comesFirst_iff, UInt64.lt_iff_toNat_lt, ← UInt64.toNat_inj] at *
  omega

theorem comesFirst_total (x y : Stamp) : (comesFirst x y || comesFirst y x) = true := by
  rw [Bool.or_eq_true, comesFirst_iff, comesFirst_iff, UInt64.lt_iff_toNat_lt,
    UInt64.lt_iff_toNat_lt, ← UInt64.toNat_inj, ← UInt64.toNat_inj]
  omega

theorem comesFirst_antisymm {x y : Stamp} (hxy : comesFirst x y = true)
    (hyx : comesFirst y x = true) : x = y := by
  obtain ⟨s, m⟩ := x
  obtain ⟨t, n⟩ := y
  rw [comesFirst_iff, UInt64.lt_iff_toNat_lt] at hxy hyx
  simp only [← UInt64.toNat_inj] at hxy hyx
  rw [Stamp.mk.injEq, ← UInt64.toNat_inj]
  omega

/-- Stamps in the order of delivery. -/
def sort (l : List Stamp) : List Stamp := l.mergeSort comesFirst

theorem perm_sort (l : List Stamp) : (sort l).Perm l := List.mergeSort_perm _ _

theorem mem_sort {l : List Stamp} {x : Stamp} : x ∈ sort l ↔ x ∈ l := (perm_sort l).mem_iff

theorem pairwise_sort (l : List Stamp) : (sort l).Pairwise fun x y => comesFirst x y = true :=
  List.pairwise_mergeSort comesFirst_trans comesFirst_total l

/-- The order of delivery leaves no choice. -/
theorem eq_of_perm {l m : List Stamp} (hl : l.Pairwise fun x y => comesFirst x y = true)
    (hm : m.Pairwise fun x y => comesFirst x y = true) (h : l.Perm m) : l = m :=
  List.Perm.eq_of_pairwise (fun _ _ _ _ => comesFirst_antisymm) hl hm h

theorem sort_eq_of_perm {l m : List Stamp} (h : l.Perm m) : sort l = sort m :=
  eq_of_perm (pairwise_sort l) (pairwise_sort m)
    ((perm_sort l).trans (h.trans (perm_sort m).symm))

theorem sort_of_pairwise {l : List Stamp} (h : l.Pairwise fun x y => comesFirst x y = true) :
    sort l = l :=
  eq_of_perm (pairwise_sort l) h (perm_sort l)

/-- Sorting is taking the first off when it comes before the others. -/
theorem sort_cons {x : Stamp} {l : List Stamp} (h : ∀ y ∈ l, comesFirst x y = true) :
    sort (x :: l) = x :: sort l := by
  apply eq_of_perm (pairwise_sort _)
  · exact List.pairwise_cons.2 ⟨fun y hy => h y (mem_sort.1 hy), pairwise_sort l⟩
  · exact (perm_sort _).trans ((perm_sort l).symm.cons x)

theorem filter_sort (p : Stamp → Bool) (l : List Stamp) : (sort l).filter p = sort (l.filter p) :=
  eq_of_perm ((pairwise_sort l).filter p) (pairwise_sort _)
    (((perm_sort l).filter p).trans (perm_sort _).symm)

end Stamp

end EventRelay
