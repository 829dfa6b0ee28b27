/-!
# Ordered sets

A finite set kept as the strictly ascending list of its members under a comparison `cmp`.  The list
is canonical: two sets with the same members are equal (`OrderedSet.ext_mem`), so statements about
tables and stores can be plain equations.

Main statements: `mem_insert` and `mem_erase` say what the operations do to membership, `mem_ofList`
that building from a list forgets order and repetition only.
-/

namespace EventRelay

open Std

/-! ### Beginnings of lists -/

section Beginnings

variable {α : Type}

/-- On a list whose first part satisfies `p`, the beginning that does is all that does. -/
theorem takeWhile_eq_filter {p : α → Bool} {l : List α}
    (h : l.Pairwise fun a b => p b = true → p a = true) : l.takeWhile p = l.filter p := by
  induction l with
  | nil => rfl
  | cons a l ih =>
    obtain ⟨ha, hl⟩ := List.pairwise_cons.1 h
    rw [List.takeWhile_cons, List.filter_cons, ih hl]
    split
    · rfl
    · rename_i hpa
      refine (List.filter_eq_nil_iff.2 ?_).symm
      intro b hb hpb
      exact hpa (ha b hb hpb)

theorem dropWhile_eq_filter {p : α → Bool} {l : List α}
    (h : l.Pairwise fun a b => p b = true → p a = true) : l.dropWhile p = l.filter fun a => !p a := by
  induction l with
  | nil => rfl
  | cons a l ih =>
    obtain ⟨ha, hl⟩ := List.pairwise_cons.1 h
    rw [List.dropWhile_cons, List.filter_cons]
    cases hpa : p a with
    | true => simpa using ih hl
    | false =>
      have hrest : (l.filter fun a => !p a) = l := by
        apply List.filter_eq_self.2
        intro b hb
        cases hpb : p b with
        | false => rfl
        | true => rw [ha b hb hpb] at hpa; cases hpa
      simp [hrest]

end Beginnings

/-! ### Sets as lists -/

/-- A set of `α`, listed in strictly ascending order of `cmp`. -/
structure OrderedSet (α : Type) (cmp : α → α → Ordering) where
  toList : List α
  ordered : toList.Pairwise fun a b => cmp a b = .lt
  deriving DecidableEq

namespace OrderedSet

variable {α : Type} {cmp : α → α → Ordering}

/-- Puts `a` at its place in an ascending list; a member equal to `a` is replaced. -/
def place (cmp : α → α → Ordering) (a : α) : List α → List α
  | [] => [a]
  | b :: rest =>
    match cmp a b with
    | .lt => a :: b :: rest
    | .eq => a :: rest
    | .gt => b :: place cmp a rest

theorem mem_place [LawfulEqCmp cmp] {a x : α} {l : List α} :
    x ∈ place cmp a l ↔ x = a ∨ x ∈ l := by
  induction l with
  | nil => simp [place]
  | cons b rest ih =>
    rw [place]
    split
    · simp
    · rename_i h
      cases LawfulEqCmp.eq_of_compare h
      simp
    · simp only [List.mem_cons, ih]
      grind

theorem pairwise_place [TransCmp cmp] [LawfulEqCmp cmp] {a : α} {l : List α}
    (h : l.Pairwise fun a b => cmp a b = .lt) :
    (place cmp a l).Pairwise fun a b => cmp a b = .lt := by
  induction l with
  | nil => simp [place]
  | cons b rest ih =>
    obtain ⟨hb, hrest⟩ := List.pairwise_cons.1 h
    rw [place]
    split
    · rename_i hab
      refine List.pairwise_cons.2 ⟨fun x hx => ?_, h⟩
      rcases List.mem_cons.1 hx with rfl | hx
      · exact hab
      · exact TransCmp.lt_trans hab (hb x hx)
    · rename_i hab
      cases LawfulEqCmp.eq_of_compare hab
      exact h
    · rename_i hab
      refine List.pairwise_cons.2 ⟨fun x hx => ?_, ih hrest⟩
      rcases mem_place.1 hx with rfl | hx
      · exact OrientedCmp.gt_iff_lt.1 hab
      · exact hb x hx

/-- The set without members. -/
def empty : OrderedSet α cmp := ⟨[], .nil⟩

instance : Inhabited (OrderedSet α cmp) := ⟨empty⟩

instance : Membership α (OrderedSet α cmp) := ⟨fun s a => a ∈ s.toList⟩

theorem mem_def {s : OrderedSet α cmp} {a : α} : a ∈ s ↔ a ∈ s.toList := Iff.rfl

def size (s : OrderedSet α cmp) : Nat := s.toList.length

def isEmpty (s : OrderedSet α cmp) : Bool := s.toList.isEmpty

/-- Whether `a` is a member. -/
def contains [DecidableEq α] (s : OrderedSet α cmp) (a : α) : Bool := s.toList.elem a

@[simp] theorem contains_iff [DecidableEq α] {s : OrderedSet α cmp} {a : α} :
    s.contains a = true ↔ a ∈ s := by
  simp [contains, mem_def]

section Lawful

variable [TransCmp cmp] [LawfulEqCmp cmp]

def insert (s : OrderedSet α cmp) (a : α) : OrderedSet α cmp :=
  ⟨place cmp a s.toList, pairwise_place s.ordered⟩

@[simp] theorem mem_insert {s : OrderedSet α cmp} {a x : α} : x ∈ s.insert a ↔ x = a ∨ x ∈ s :=
  mem_place

/-- The set of the members of a list. -/
def ofList (l : List α) : OrderedSet α cmp := l.foldr (fun a s => s.insert a) empty

@[simp] theorem mem_ofList {l : List α} {x : α} : x ∈ (ofList l : OrderedSet α cmp) ↔ x ∈ l := by
  induction l with
  | nil => simp [ofList, empty, mem_def]
  | cons a rest ih =>
    rw [List.mem_cons, ← ih]
    exact mem_insert

/-- A set is determined by its members. -/
theorem ext_mem {s t : OrderedSet α cmp} (h : ∀ x, x ∈ s ↔ x ∈ t) : s = t := by
  obtain ⟨l, hl⟩ := s
  obtain ⟨m, hm⟩ := t
  have key : ∀ {l m : List α}, l.Pairwise (fun a b => cmp a b = .lt) →
      m.Pairwise (fun a b => cmp a b = .lt) → (∀ x, x ∈ l ↔ x ∈ m) → l = m := by
    intro l
    induction l with
    | nil =>
      intro m _ _ h
      cases m with
      | nil => rfl
      | cons b m => exact absurd ((h b).2 (by simp)) (by simp)
    | cons a l ih =>
      intro m hl hm h
      cases m with
      | nil => exact absurd ((h a).1 (by simp)) (by simp)
      | cons b m =>
        obtain ⟨ha, hl'⟩ := List.pairwise_cons.1 hl
        obtain ⟨hb, hm'⟩ := List.pairwise_cons.1 hm
        have irrefl : ∀ x : α, cmp x x ≠ .lt := fun x => by simp [ReflCmp.compare_self]
        have hab : a = b := by
          rcases List.mem_cons.1 ((h a).1 (by simp)) with e | e
          · exact e
          rcases List.mem_cons.1 ((h b).2 (by simp)) with e' | e'
          · exact e'.symm
          exact absurd (TransCmp.lt_trans (ha b e') (hb a e)) (irrefl a)
        subst hab
        congr 1
        refine ih hl' hm' fun x => ?_
        have hx := h x
        simp only [List.mem_cons] at hx
        constructor
        · intro hxl
          rcases hx.1 (.inr hxl) with rfl | hxm
          · exact absurd (ha x hxl) (irrefl x)
          · exact hxm
        · intro hxm
          rcases hx.2 (.inr hxm) with rfl | hxl
          · exact absurd (hb x hxm) (irrefl x)
          · exact hxl
  have := key hl hm h
  subst this
  rfl

end Lawful

/-- Keeps the members that satisfy `p`. -/
def filter (p : α → Bool) (s : OrderedSet α cmp) : OrderedSet α cmp :=
  ⟨s.toList.filter p, s.ordered.filter p⟩

@[simp] theorem mem_filter {p : α → Bool} {s : OrderedSet α cmp} {x : α} :
    x ∈ s.filter p ↔ x ∈ s ∧ p x = true := by
  simp [filter, mem_def]

def erase [DecidableEq α] (s : OrderedSet α cmp) (a : α) : OrderedSet α cmp :=
  s.filter fun x => decide (x ≠ a)

@[simp] theorem mem_erase [DecidableEq α] {s : OrderedSet α cmp} {a x : α} :
    x ∈ s.erase a ↔ x ∈ s ∧ x ≠ a := by
  simp [erase]

end OrderedSet

end EventRelay
