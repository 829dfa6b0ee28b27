import EventRelay.Proofs.Scan.Walk
/-!
# What a whole walk brings

A walk under a stem ends at the first entry that is not one of the stem.  So it brings the entries of
the stem up to the first foreign key between them; where no foreign key lies between two keys of the
stem, it brings them all.

A foreign key lies between two keys of a stem only if it begins with the stem, as the key of a longer
stem may.  Among stems of one size there is none, and then what a walk brings does not depend on where
other entries come or go.

Main statements: `mem_coming_start` (what a cursor brings from the start) and `coming_eq_filter` (what
any cursor brings where no longer stem is about).
-/

namespace EventRelay

open Std

variable {α : Type}

/-- In an ordered list a member is in the beginning that satisfies `p` if `p` holds up to it. -/
theorem mem_takeWhile_iff {p : α → Bool} {cmp : α → α → Ordering} [TransCmp cmp] {l : List α}
    (h : l.Pairwise fun a b => cmp a b = .lt) {x : α} :
    x ∈ l.takeWhile p ↔ x ∈ l ∧ p x = true ∧ ∀ y ∈ l, cmp y x = .lt → p y = true := by
  induction l with
  | nil => simp
  | cons a l ih =>
    obtain ⟨ha, hl⟩ := List.pairwise_cons.1 h
    rw [List.takeWhile_cons]
    by_cases hpa : p a = true
    · rw [if_pos hpa, List.mem_cons, ih hl]
      constructor
      · rintro (rfl | ⟨hx, hpx, hbefore⟩)
        · refine ⟨List.mem_cons_self, hpa, ?_⟩
          intro y hy hyx
          rcases List.mem_cons.1 hy with rfl | hy
          · exact hpa
          -- nothing comes before the head
          · rw [OrientedCmp.gt_of_lt (ha y hy)] at hyx
            cases hyx
        · refine ⟨List.mem_cons_of_mem _ hx, hpx, ?_⟩
          intro y hy hyx
          rcases List.mem_cons.1 hy with rfl | hy
          · exact hpa
          · exact hbefore y hy hyx
      · rintro ⟨hx, hpx, hbefore⟩
        rcases List.mem_cons.1 hx with rfl | hx
        · exact .inl rfl
        · exact .inr ⟨hx, hpx, fun y hy => hbefore y (List.mem_cons_of_mem _ hy)⟩
    · rw [if_neg hpa]
      refine ⟨fun hx => absurd hx List.not_mem_nil, ?_⟩
      rintro ⟨hx, hpx, hbefore⟩
      rcases List.mem_cons.1 hx with rfl | hx
      · exact absurd hpx hpa
      · exact absurd (hbefore a List.mem_cons_self (ha x hx)) hpa

namespace View

/-- Whether no foreign key lies between two keys of a stem. -/
def IsClear (v : View) (k : IndexKind) (stem : Bytes) (lo hi : UInt64) : Prop :=
  ∀ e ∈ v.indices.get k, Bytes.cmp (IndexKey.make stem lo) e.key ≠ .gt →
    Bytes.cmp e.key (IndexKey.make stem hi) ≠ .gt → IndexKey.ownedBy stem e.key = true

/-- Whether no foreign key begins with a stem. -/
def IsExact (v : View) (k : IndexKind) (stem : Bytes) : Prop :=
  ∀ e ∈ v.indices.get k, stem <+: e.key → IndexKey.ownedBy stem e.key = true

theorem IsExact.isClear {v : View} {k : IndexKind} {stem : Bytes} (h : v.IsExact k stem)
    (lo hi : UInt64) : v.IsClear k stem lo hi :=
  fun e he hlo hhi => h e he (IndexKey.isPrefix_of_between hlo hhi)

/-- No key lies between a key and itself. -/
theorem isClear_self {v : View} {k : IndexKind} {stem : Bytes} {time : UInt64} :
    v.IsClear k stem time time := by
  intro e _ hlo hhi
  have hkey : e.key = IndexKey.make stem time := by
    cases hcmp : Bytes.cmp e.key (IndexKey.make stem time) with
    | lt => exact absurd (OrientedCmp.gt_iff_lt.2 hcmp) hlo
    | eq => exact Bytes.eq_of_cmp hcmp
    | gt => exact absurd hcmp hhi
  rw [hkey]
  exact IndexKey.ownedBy_make

end View

namespace IndexKey

theorem cmp_make_ne_gt_iff {stem : Bytes} {s t : UInt64} :
    Bytes.cmp (make stem s) (make stem t) ≠ .gt ↔ s ≤ t := by
  rw [cmp_make, UInt64.le_iff_toNat_le]
  exact Nat.compare_ne_gt

end IndexKey

theorem Entry.isAbove_none {key : Bytes} {e : Entry} :
    isAbove key none e = false ↔ Bytes.cmp e.key key ≠ .gt := by
  rw [isAbove]
  cases Bytes.cmp e.key key <;> simp

namespace Entry

/-- An entry in front of another has at least its key. -/
theorem cmp_key_ne_gt {a b : Entry} (h : cmpBack a b = .lt) : Bytes.cmp b.key a.key ≠ .gt := by
  rcases cmpBack_lt_iff.1 h with h | ⟨h, -⟩
  · simp [h]
  · simp [h, Bytes.cmp_self]

end Entry

namespace Cursor

/-- Where an entry that a walk takes has an entry of its stem in front of it, the walk takes that. -/
theorem takes_of_ownedBy {stem : Bytes} {since : UInt64} {a b : Entry} (hb : takes stem since b = true)
    (hab : Bytes.cmp b.key a.key ≠ .gt) (ha : IndexKey.ownedBy stem a.key = true) :
    takes stem since a = true := by
  obtain ⟨t, hkey, ht⟩ := takes_iff.1 hb
  obtain ⟨s, hs⟩ := IndexKey.ownedBy_iff_exists.1 ha
  rw [hkey, hs, IndexKey.cmp_make_ne_gt_iff] at hab
  exact takes_iff.2 ⟨s, hs, UInt64.le_trans ht hab⟩

/-- From the start a cursor brings the entries of its stem and range behind which no foreign key
lies. -/
theorem mem_coming_start {v : View} {k : IndexKind} {stem : Bytes} {since upTo : UInt64} {e : Entry} :
    e ∈ (start stem upTo).coming v k since ↔
      e ∈ v.indices.get k ∧ ∃ time, e.key = IndexKey.make stem time ∧ since ≤ time ∧ time ≤ upTo
        ∧ v.IsClear k stem time upTo := by
  have hahead : ∀ {x}, x ∈ (start stem upTo).ahead v k ↔
      x ∈ v.indices.get k ∧ Bytes.cmp x.key (IndexKey.make stem upTo) ≠ .gt := by
    intro x
    rw [← Entry.isAbove_none]
    exact Table.mem_back
  rw [coming, mem_takeWhile_iff pairwise_ahead, hahead]
  constructor
  · rintro ⟨⟨he, hupTo⟩, htakes, hbefore⟩
    obtain ⟨time, hkey, hsince⟩ := takes_iff.1 htakes
    have hkey : e.key = IndexKey.make stem time := hkey
    have htime : time ≤ upTo := by rwa [hkey, IndexKey.cmp_make_ne_gt_iff] at hupTo
    refine ⟨he, time, hkey, hsince, htime, ?_⟩
    intro x hx hlo hhi
    rw [← hkey] at hlo
    -- an entry with the key of `e` is owned like `e`, any other lies in front of it
    cases hcmp : Bytes.cmp e.key x.key with
    | gt => exact absurd hcmp hlo
    | eq =>
      rw [← Bytes.eq_of_cmp hcmp, hkey]
      exact IndexKey.ownedBy_make
    | lt =>
      have hxe : Entry.cmpBack x e = .lt := Entry.cmpBack_lt_iff.2 (.inl hcmp)
      obtain ⟨t, ht, -⟩ := takes_iff.1 (hbefore x (hahead.2 ⟨hx, hhi⟩) hxe)
      exact IndexKey.ownedBy_iff_exists.2 ⟨t, ht⟩
  · rintro ⟨he, time, hkey, hsince, htime, hclear⟩
    have htakes : takes stem since e = true := takes_iff.2 ⟨time, hkey, hsince⟩
    refine ⟨⟨he, hkey ▸ IndexKey.cmp_make_ne_gt_iff.2 htime⟩, htakes, ?_⟩
    intro y hy hye
    obtain ⟨hy, hhi⟩ := hahead.1 hy
    have hlo := Entry.cmp_key_ne_gt hye
    exact takes_of_ownedBy htakes hlo (hclear y hy (hkey ▸ hlo) hhi)

/-- Whether an entry lies at or behind the place where a cursor goes on. -/
def isAhead (c : Cursor) (e : Entry) : Bool :=
  c.resumeKey.any fun key => !Entry.isAbove key c.resumeSeq e

theorem ahead_eq_filter {c : Cursor} {v : View} {k : IndexKind} :
    c.ahead v k = (v.indices.get k).toList.filter c.isAhead := by
  unfold isAhead
  rw [ahead]
  cases c.resumeKey with
  | none => simp
  | some key =>
    exact Table.back_eq_filter

/-- Where no longer stem is about, a cursor brings every entry of its stem that it has not passed. -/
theorem coming_eq_filter {c : Cursor} {v : View} {k : IndexKind} {since upTo : UInt64}
    (hexact : v.IsExact k c.stem) (hc : c.IsWithin upTo) :
    c.coming v k since =
      (v.indices.get k).toList.filter fun e => takes c.stem since e && c.isAhead e := by
  rw [coming, takeWhile_eq_filter, ahead_eq_filter, List.filter_filter]
  refine pairwise_ahead.imp_of_mem ?_
  intro a b ha hb hab hpb
  obtain ⟨t, hkey, ht⟩ := takes_iff.1 hpb
  have hmem : a ∈ v.indices.get k := by
    rw [ahead_eq_filter] at ha
    exact (List.mem_filter.1 ha).1
  have hlo := Entry.cmp_key_ne_gt hab
  apply takes_of_ownedBy hpb hlo
  exact hexact.isClear t upTo a hmem (hkey ▸ hlo) (hc.of_mem_ahead ha)

end Cursor

end EventRelay
