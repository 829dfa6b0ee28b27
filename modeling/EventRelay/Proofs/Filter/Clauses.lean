import EventRelay.Proofs.Scan.Plans
/-!
# Filters made of clauses

A filter is made of one clause after the other.  As long as no two of them restrict the same field, none
takes the place of another, and the filter asks for what all of them ask for.

Main statements: `accepts_restrict`, `accepts_foldl` and `length_tags_foldl`.
-/

namespace EventRelay

namespace Filter

namespace Clause

/-- Whether an event is one that a clause asks for. -/
def Admits (e : Event) : Clause → Prop
  | .nothing => False
  | .ids set => e.id ∈ set
  | .authors set => e.author ∈ set
  | .kinds set => e.kind ∈ set
  | .tag name values => ∃ value ∈ values, ⟨name, value⟩ ∈ e.tags
  | .since time => time ≤ e.createdAt
  | .upTo time => e.createdAt ≤ time
  | .limit _ => True

/-- The field that a clause restricts. -/
def field? : Clause → Option Field
  | .nothing => none
  | .ids _ => some .ids
  | .authors _ => some .authors
  | .kinds _ => some .kinds
  | .tag name _ => some (.tag name)
  | .since _ => some .since
  | .upTo _ => some .upTo
  | .limit _ => some .limit

end Clause

/-- Whether a filter does not restrict a field yet. -/
def Lacks (f : Filter) : Field → Prop
  | .ids => f.ids = none
  | .authors => f.authors = none
  | .kinds => f.kinds = none
  | .tag name => ∀ t ∈ f.tags, t.1 ≠ name
  | .since => f.since = 0
  | .upTo => f.upTo = unbounded
  | .limit => True

variable {f : Filter} {c : Clause} {e : Event}

theorem lacks_unrestricted {field : Field} : unrestricted.Lacks field := by
  cases field <;> first | rfl | trivial | exact nofun

/-- A clause restricts its own field only. -/
theorem Lacks.restrict {field : Field} (h : f.Lacks field) (hc : c.field? ≠ some field) :
    (f.restrict c).Lacks field := by
  cases c with
  | tag name values =>
    cases field with
    | tag other =>
      intro t ht
      rcases mem_placeTag ht with rfl | ht
      · exact fun heq => hc (congrArg (fun n => some (Field.tag n)) heq)
      · exact h t ht
    | _ => exact h
  | _ => cases field <;> first | exact h | exact absurd rfl hc

/-- What clauses on other fields than this one restrict is left unrestricted by it. -/
theorem lacks_restrict {rest : List Clause} (h : ∀ d ∈ rest, ∀ field, d.field? = some field → f.Lacks field)
    (hdiffer : ∀ d ∈ rest, ∀ field, c.field? = some field → d.field? ≠ some field) :
    ∀ d ∈ rest, ∀ field, d.field? = some field → (f.restrict c).Lacks field :=
  fun d hd field hfield => (h d hd field hfield).restrict fun heq => hdiffer d hd field heq hfield

/-- A tag that is put beside others of different names stands among them. -/
theorem mem_placeTag_iff {name : UInt8} {values : ValueSet} {l : List (UInt8 × ValueSet)}
    (h : ∀ t ∈ l, t.1 ≠ name) {t : UInt8 × ValueSet} :
    t ∈ placeTag name values l ↔ t = (name, values) ∨ t ∈ l := by
  induction l with
  | nil => exact List.mem_singleton.trans (or_iff_left List.not_mem_nil).symm
  | cons u rest ih =>
    obtain ⟨hu, hrest⟩ := List.forall_mem_cons.1 h
    rw [placeTag]
    split
    · exact List.mem_cons
    · rw [if_neg (Ne.symm hu), List.mem_cons, List.mem_cons, ih hrest, or_left_comm]

/-- Whether an event is one that a filter asks for as far as one field goes. -/
def Meets (f : Filter) (e : Event) : Field → Prop
  | .ids => ∀ set, f.ids = some set → e.id ∈ set
  | .authors => ∀ set, f.authors = some set → e.author ∈ set
  | .kinds => ∀ set, f.kinds = some set → e.kind ∈ set
  | .tag name => ∀ values, (name, values) ∈ f.tags → ∃ value ∈ values, ⟨name, value⟩ ∈ e.tags
  | .since => f.since ≤ e.createdAt
  | .upTo => e.createdAt ≤ f.upTo
  | .limit => True

theorem accepts_iff_meets : f.accepts e = true ↔ f.neverMatch = false ∧ ∀ field, f.Meets e field := by
  rw [accepts_iff, matchesTime, Bool.and_eq_true, decide_eq_true_eq, decide_eq_true_eq]
  refine and_congr_right fun _ => ⟨?_, fun h => ?_⟩
  · rintro ⟨⟨hsince, hupTo⟩, hids, hauthors, hkinds, htags⟩ field
    cases field with
    | ids => exact hids
    | authors => exact hauthors
    | kinds => exact hkinds
    | tag name => exact fun values hvalues => htags _ hvalues
    | since => exact hsince
    | upTo => exact hupTo
    | limit => trivial
  · exact ⟨⟨h .since, h .upTo⟩, h .ids, h .authors, h .kinds, fun t ht => h (.tag t.1) t.2 ht⟩

theorem le_unbounded {time : UInt64} : time ≤ unbounded :=
  UInt64.le_iff_toNat_le.2 (Nat.le_of_lt_succ time.toNat_lt)

theorem Lacks.meets {field : Field} (h : f.Lacks field) : f.Meets e field := by
  cases field with
  | ids | authors | kinds =>
    intro set hset
    cases h.symm.trans hset
  | tag name => exact fun values hvalues => absurd rfl (h _ hvalues)
  | since =>
    have hzero : f.since = 0 := h
    show f.since ≤ e.createdAt
    rw [hzero]
    exact UInt64.zero_le
  | upTo =>
    have htop : f.upTo = unbounded := h
    show e.createdAt ≤ f.upTo
    rw [htop]
    exact le_unbounded
  | limit => trivial

theorem meets_restrict_self {field : Field} (hc : c.field? = some field) (h : f.Lacks field) :
    (f.restrict c).Meets e field ↔ c.Admits e := by
  cases c with
  | nothing => cases hc
  | ids | authors | kinds =>
    cases hc
    exact ⟨fun hmeets => hmeets _ rfl, fun hadmits set hset => Option.some.inj hset ▸ hadmits⟩
  | tag name values =>
    cases hc
    refine ⟨fun hmeets => hmeets values ((mem_placeTag_iff h).2 (.inl rfl)), fun hadmits other hother => ?_⟩
    rcases (mem_placeTag_iff h).1 hother with heq | hmem
    · cases heq
      exact hadmits
    · exact absurd rfl (h _ hmem)
  | since | upTo | limit =>
    cases hc
    exact Iff.rfl

theorem meets_restrict_of_ne {field : Field} (hc : c.field? ≠ some field)
    (h : ∀ own, c.field? = some own → f.Lacks own) : (f.restrict c).Meets e field ↔ f.Meets e field := by
  cases c with
  | tag name values =>
    cases field with
    | tag other =>
      refine forall_congr' fun set => imp_congr_left ((mem_placeTag_iff (h _ rfl)).trans (or_iff_right ?_))
      intro heq
      cases heq
      exact hc rfl
    | _ => exact Iff.rfl
  | _ => cases field <;> first | exact Iff.rfl | exact absurd rfl hc

/-- A clause on a field that was not restricted adds its own condition and takes none away. -/
theorem accepts_restrict (h : ∀ field, c.field? = some field → f.Lacks field) :
    (f.restrict c).accepts e = true ↔ f.accepts e = true ∧ c.Admits e := by
  cases hc : c.field? with
  | none =>
    -- only the clause that lists nothing restricts no field
    cases c with
    | nothing => simp [accepts, restrict, Clause.Admits]
    | _ => cases hc
  | some own =>
    have hnever : (f.restrict c).neverMatch = f.neverMatch := by
      cases c with
      | nothing => cases hc
      | _ => rfl
    have hown : f.Lacks own := h own hc
    rw [accepts_iff_meets, accepts_iff_meets, hnever, and_assoc]
    refine and_congr_right fun _ => ⟨fun hmeets => ⟨fun field => ?_, ?_⟩, ?_⟩
    · by_cases hfield : c.field? = some field
      · cases hc.symm.trans hfield
        exact hown.meets
      · exact (meets_restrict_of_ne hfield h).1 (hmeets field)
    · exact (meets_restrict_self hc hown).1 (hmeets own)
    · rintro ⟨hmeets, hadmits⟩ field
      by_cases hfield : c.field? = some field
      · cases hc.symm.trans hfield
        exact (meets_restrict_self hc hown).2 hadmits
      · exact (meets_restrict_of_ne hfield h).2 (hmeets field)

/-- Clauses on different fields: the filter made of them asks for what all of them ask for. -/
theorem accepts_foldl {clauses : List Clause} (h : ∀ c ∈ clauses, ∀ field, c.field? = some field → f.Lacks field)
    (hpairwise : clauses.Pairwise fun c d => ∀ field, c.field? = some field → d.field? ≠ some field) :
    (clauses.foldl restrict f).accepts e = true ↔ f.accepts e = true ∧ ∀ c ∈ clauses, c.Admits e := by
  induction clauses generalizing f with
  | nil => simp
  | cons c rest ih =>
    obtain ⟨hc, hrest⟩ := List.forall_mem_cons.1 h
    obtain ⟨hdiffer, hpairwise⟩ := List.pairwise_cons.1 hpairwise
    have hlacks := lacks_restrict hrest hdiffer
    rw [List.foldl_cons, ih hlacks hpairwise, accepts_restrict hc, List.forall_mem_cons, and_assoc]

/-- Whether a clause lists values of a tag. -/
def Clause.isTag : Clause → Bool
  | .tag _ _ => true
  | _ => false

theorem length_placeTag {name : UInt8} {values : ValueSet} {l : List (UInt8 × ValueSet)}
    (h : ∀ t ∈ l, t.1 ≠ name) : (placeTag name values l).length = l.length + 1 := by
  induction l with
  | nil => rfl
  | cons u rest ih =>
    obtain ⟨hu, hrest⟩ := List.forall_mem_cons.1 h
    rw [placeTag]
    split
    · rfl
    · rw [if_neg (Ne.symm hu), List.length_cons, List.length_cons, ih hrest]

/-- Clauses on different fields: the filter made of them lists values of as many tags as they do. -/
theorem length_tags_foldl {clauses : List Clause}
    (h : ∀ c ∈ clauses, ∀ field, c.field? = some field → f.Lacks field)
    (hpairwise : clauses.Pairwise fun c d => ∀ field, c.field? = some field → d.field? ≠ some field) :
    (clauses.foldl restrict f).tags.length = f.tags.length + clauses.countP Clause.isTag := by
  induction clauses generalizing f with
  | nil => rfl
  | cons c rest ih =>
    obtain ⟨hc, hrest⟩ := List.forall_mem_cons.1 h
    obtain ⟨hdiffer, hpairwise⟩ := List.pairwise_cons.1 hpairwise
    have hlacks := lacks_restrict hrest hdiffer
    have hstep : (f.restrict c).tags.length = f.tags.length + if c.isTag then 1 else 0 := by
      cases c with
      | tag name values => exact length_placeTag (hc _ rfl)
      | _ => rfl
    rw [List.foldl_cons, ih hlacks hpairwise, List.countP_cons, hstep]
    omega

theorem accepts_unrestricted : unrestricted.accepts e = true :=
  accepts_iff_meets.2 ⟨rfl, fun _ => lacks_unrestricted.meets⟩

end Filter

end EventRelay
