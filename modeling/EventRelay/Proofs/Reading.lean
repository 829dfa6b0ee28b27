import EventRelay.Event.Wire
import EventRelay.Filter.Grammar
/-!
# What events and filters are like that were read

Events and filters come from JSON, and reading them settles more than their types say: the values of
the tags `e` and `p` are identifiers on both sides, and a filter says of itself that an index decides
its matches only if it lists values in one field, or in authors and kinds.

Main statements: `Event.FromJson.hasIdTags` and `Filter.FromJson.wellRead`.
-/

namespace EventRelay

/-! ### Reading lists -/

section

variable {α β γ ε : Type}

theorem exists_of_bind_eq_ok {x : Except ε α} {f : α → Except ε β} {b : β} (h : (x >>= f) = .ok b) :
    ∃ a, x = .ok a ∧ f a = .ok b := by
  cases x with
  | error e => cases h
  | ok a => exact ⟨a, rfl, h⟩

theorem bind_pure_eq_map (x : Except ε α) (k : α → β) : (x >>= fun a => pure (k a)) = x.map k := by
  cases x <;> rfl

/-- What a list is read into has been read, item by item. -/
theorem exists_of_mem_mapM {f : α → Except ε β} {l : List α} {read : List β} (h : l.mapM f = .ok read)
    {b : β} (hb : b ∈ read) : ∃ a ∈ l, f a = .ok b := by
  induction l generalizing read with
  | nil =>
    cases h
    exact absurd hb List.not_mem_nil
  | cons a l ih =>
    rw [List.mapM_cons] at h
    obtain ⟨c, hc, h⟩ := exists_of_bind_eq_ok h
    obtain ⟨rest, hrest, h⟩ := exists_of_bind_eq_ok h
    cases h
    rcases List.mem_cons.1 hb with rfl | hb
    · exact ⟨a, List.mem_cons_self, hc⟩
    · obtain ⟨x, hx, hfx⟩ := ih hrest hb
      exact ⟨x, List.mem_cons_of_mem _ hx, hfx⟩

/-- Every item of a list that is read is read into something. -/
theorem exists_mem_of_mapM {f : α → Except ε β} {l : List α} {read : List β} (h : l.mapM f = .ok read)
    {a : α} (ha : a ∈ l) : ∃ b ∈ read, f a = .ok b := by
  induction l generalizing read with
  | nil => cases ha
  | cons x l ih =>
    rw [List.mapM_cons] at h
    obtain ⟨c, hc, h⟩ := exists_of_bind_eq_ok h
    obtain ⟨rest, hrest, h⟩ := exists_of_bind_eq_ok h
    cases h
    rcases List.mem_cons.1 ha with rfl | ha
    · exact ⟨c, List.mem_cons_self, hc⟩
    · obtain ⟨b, hb, hab⟩ := ih hrest ha
      exact ⟨b, List.mem_cons_of_mem _ hb, hab⟩

/-- What is written and read item by item is read back. -/
theorem mapM_map_eq_ok {f : β → Except ε γ} {g : α → β} {k : α → γ} {l : List α}
    (h : ∀ a ∈ l, f (g a) = .ok (k a)) : (l.map g).mapM f = .ok (l.map k) := by
  induction l with
  | nil => rfl
  | cons a l ih =>
    obtain ⟨ha, hl⟩ := List.forall_mem_cons.1 h
    rw [List.map_cons, List.mapM_cons, ha, ih hl]
    rfl

/-- Reading takes what holds between the items of a list over to what they are read into. -/
theorem pairwise_of_mapM {f : α → Except ε β} {l : List α} {read : List β} (h : l.mapM f = .ok read)
    {R : α → α → Prop} {S : β → β → Prop} (hl : l.Pairwise R)
    (hstep : ∀ {a a' b b'}, R a a' → f a = .ok b → f a' = .ok b' → S b b') : read.Pairwise S := by
  induction l generalizing read with
  | nil =>
    cases h
    exact .nil
  | cons a l ih =>
    obtain ⟨ha, hl⟩ := List.pairwise_cons.1 hl
    rw [List.mapM_cons] at h
    obtain ⟨c, hc, h⟩ := exists_of_bind_eq_ok h
    obtain ⟨rest, hrest, h⟩ := exists_of_bind_eq_ok h
    cases h
    refine List.pairwise_cons.2 ⟨fun b hb => ?_, ih hrest hl⟩
    obtain ⟨a', ha', hb⟩ := exists_of_mem_mapM hrest hb
    exact hstep (ha a' ha') hc hb

/-- Reading takes a count over the items of a list over to what they are read into. -/
theorem countP_of_mapM {f : α → Except ε β} {l : List α} {read : List β} (h : l.mapM f = .ok read)
    {p : α → Bool} {q : β → Bool} (hstep : ∀ {a b}, f a = .ok b → p a = q b) :
    l.countP p = read.countP q := by
  induction l generalizing read with
  | nil =>
    cases h
    rfl
  | cons a l ih =>
    rw [List.mapM_cons] at h
    obtain ⟨b, hb, h⟩ := exists_of_bind_eq_ok h
    obtain ⟨rest, hrest, h⟩ := exists_of_bind_eq_ok h
    cases h
    rw [List.countP_cons, List.countP_cons, ih hrest, hstep hb]

/-- A list is read if every item of it is. -/
theorem exists_mapM_eq_ok_iff {f : α → Except ε β} {l : List α} :
    (∃ read, l.mapM f = .ok read) ↔ ∀ a ∈ l, ∃ b, f a = .ok b := by
  constructor
  · rintro ⟨read, hread⟩ a ha
    obtain ⟨b, -, hb⟩ := exists_mem_of_mapM hread ha
    exact ⟨b, hb⟩
  · intro h
    induction l with
    | nil => exact ⟨[], rfl⟩
    | cons a l ih =>
      obtain ⟨⟨b, hb⟩, hl⟩ := List.forall_mem_cons.1 h
      obtain ⟨rest, hrest⟩ := ih hl
      exact ⟨b :: rest, by rw [List.mapM_cons, hb, hrest]; rfl⟩

/-- Where not all items of a list are of one sort, there is a first one that is not. -/
theorem forall_or_exists_first (p : α → Prop) (l : List α) :
    (∀ a ∈ l, p a) ∨ ∃ before a after, l = before ++ a :: after ∧ (∀ b ∈ before, p b) ∧ ¬ p a := by
  induction l with
  | nil => exact .inl nofun
  | cons x l ih =>
    by_cases hx : p x
    · rcases ih with h | ⟨before, a, after, rfl, hbefore, ha⟩
      · exact .inl (List.forall_mem_cons.2 ⟨hx, h⟩)
      · exact .inr ⟨x :: before, a, after, rfl, List.forall_mem_cons.2 ⟨hx, hbefore⟩, ha⟩
    · exact .inr ⟨[], x, l, rfl, nofun, hx⟩

/-- In an ordered list the first item of a sort is the one below which there is none. -/
theorem exists_first_iff {R : α → α → Prop} (hR : ∀ {a b}, R a b → ¬ R b a) {l : List α}
    (hl : l.Pairwise R) {p q : α → Prop} :
    (∃ before a after, l = before ++ a :: after ∧ (∀ b ∈ before, p b) ∧ q a) ↔
      ∃ a ∈ l, q a ∧ ∀ b ∈ l, R b a → p b := by
  constructor
  · rintro ⟨before, a, after, rfl, hbefore, ha⟩
    refine ⟨a, List.mem_append_right _ List.mem_cons_self, ha, fun b hb hba => ?_⟩
    obtain ⟨-, hafter, -⟩ := List.pairwise_append.1 hl
    rcases List.mem_append.1 hb with hb | hb
    · exact hbefore b hb
    · rcases List.mem_cons.1 hb with rfl | hb
      · exact absurd hba (hR hba)
      · exact absurd hba (hR ((List.pairwise_cons.1 hafter).1 b hb))
  · rintro ⟨a, ha, hqa, hbelow⟩
    obtain ⟨before, after, rfl⟩ := List.append_of_mem ha
    obtain ⟨-, -, hbefore⟩ := List.pairwise_append.1 hl
    exact ⟨before, a, after, rfl, fun b hb => hbelow b (List.mem_append_left _ hb)
      (hbefore b hb a List.mem_cons_self), hqa⟩

theorem mapM_eq_error_of_first {f : α → Except ε β} {before after : List α} {a : α} {e : ε}
    (hbefore : ∀ b ∈ before, ∃ c, f b = .ok c) (ha : f a = .error e) :
    (before ++ a :: after).mapM f = .error e := by
  obtain ⟨read, hread⟩ := exists_mapM_eq_ok_iff.2 hbefore
  rw [List.mapM_append, List.mapM_cons, hread, ha]
  rfl

/-- A list that is not read gives the error of the first item that is not. -/
theorem mapM_eq_error_iff {f : α → Except ε β} {l : List α} {e : ε} :
    l.mapM f = .error e ↔
      ∃ before a after, l = before ++ a :: after ∧ (∀ b ∈ before, ∃ c, f b = .ok c) ∧ f a = .error e := by
  constructor
  · intro h
    rcases forall_or_exists_first (fun a => ∃ b, f a = .ok b) l with hall | ⟨before, a, after, rfl, hbefore, ha⟩
    · obtain ⟨read, hread⟩ := exists_mapM_eq_ok_iff.2 hall
      rw [hread] at h
      cases h
    · cases hfa : f a with
      | ok b => exact absurd ⟨b, hfa⟩ ha
      | error e' =>
        rw [mapM_eq_error_of_first hbefore hfa] at h
        cases h
        exact ⟨before, a, after, rfl, hbefore, hfa⟩
  · rintro ⟨before, a, after, rfl, hbefore, ha⟩
    exact mapM_eq_error_of_first hbefore ha

/-- What a reading comes to: it succeeds where something fits, and fails with what is at fault. -/
structure Decided (x : Except ε β) (Fits : Prop) (Fault : ε → Prop) : Prop where
  ok_iff : (∃ b, x = .ok b) ↔ Fits
  error_iff : ∀ e, x = .error e ↔ Fault e

/-- Where always something fits or is at fault, it is enough to know what either makes of the reading. -/
theorem Decided.of_total {x : Except ε β} {Fits : Prop} {Fault : ε → Prop} (htotal : Fits ∨ ∃ e, Fault e)
    (hfits : Fits → ∃ b, x = .ok b) (hfault : ∀ e, Fault e → x = .error e) : Decided x Fits Fault where
  ok_iff := by
    refine ⟨?_, hfits⟩
    rintro ⟨b, hb⟩
    refine htotal.resolve_right ?_
    rintro ⟨e, he⟩
    rw [hfault e he] at hb
    cases hb
  error_iff e := by
    refine ⟨fun h => ?_, hfault e⟩
    rcases htotal with hfit | ⟨e', he'⟩
    · obtain ⟨b, hb⟩ := hfits hfit
      rw [hb] at h
      cases h
    · rw [hfault e' he'] at h
      cases h
      exact he'

theorem Decided.total {x : Except ε β} {Fits : Prop} {Fault : ε → Prop} (h : Decided x Fits Fault) :
    Fits ∨ ∃ e, Fault e := by
  cases hx : x with
  | ok b => exact .inl (h.ok_iff.1 ⟨b, hx⟩)
  | error e => exact .inr ⟨e, (h.error_iff e).1 hx⟩

theorem Decided.map {x : Except ε β} {Fits : Prop} {Fault : ε → Prop} (h : Decided x Fits Fault)
    (k : β → γ) : Decided (x.map k) Fits Fault := by
  refine .of_total h.total (fun hfits => ?_) fun e he => ?_
  · obtain ⟨b, hb⟩ := h.ok_iff.2 hfits
    exact ⟨k b, by rw [hb]; rfl⟩
  · rw [(h.error_iff e).2 he]
    rfl

/-- A list is decided by its items, one after the other. -/
theorem Decided.mapM {f : α → Except ε β} {l : List α} {Fits : α → Prop} {Fault : α → ε → Prop}
    (h : ∀ a ∈ l, Decided (f a) (Fits a) (Fault a)) :
    Decided (l.mapM f) (∀ a ∈ l, Fits a)
      fun e => ∃ before a after, l = before ++ a :: after ∧ (∀ b ∈ before, Fits b) ∧ Fault a e where
  ok_iff := exists_mapM_eq_ok_iff.trans (forall₂_congr fun a ha => (h a ha).ok_iff)
  error_iff e := by
    rw [mapM_eq_error_iff]
    refine exists_congr fun before => exists_congr fun a => exists_congr fun after => ?_
    refine and_congr_right fun hl => ?_
    subst hl
    have hbefore : ∀ b ∈ before, Decided (f b) (Fits b) (Fault b) :=
      fun b hb => h b (List.mem_append_left _ hb)
    have ha : Decided (f a) (Fits a) (Fault a) := h a (List.mem_append_right _ List.mem_cons_self)
    exact and_congr (forall₂_congr fun b hb => (hbefore b hb).ok_iff) (ha.error_iff e)

end

/-! ### Events -/

namespace Event

/-- Whether an event can be read from some JSON value. -/
def FromJson (e : Event) : Prop := ∃ v, ofJson v = .ok e

/-- Whether the values of the tags `e` and `p` of an event are identifiers. -/
def HasIdTags (e : Event) : Prop := ∀ t ∈ e.tags, Tag.holdsId t.name = true → t.value.length = 32

end Event

namespace WireTag

theorem length_readValue {name : UInt8} {text : String} {value : Bytes} (hname : Tag.holdsId name = true)
    (h : readValue name text = .ok value) : value.length = 32 := by
  rw [readValue, if_pos hname] at h
  split at h
  · rename_i i _
    cases h
    exact i.length_bytes
  · cases h

theorem length_of_ofStrings {name text : String} {t : Tag} (ht : Tag.holdsId t.name = true)
    (h : ofStrings name text = .ok (.indexed t)) : t.value.length = 32 := by
  rw [ofStrings] at h
  split at h
  · cases h
  · split at h
    · split at h
      · rename_i hread
        cases h
        exact length_readValue ht hread
      · cases h
    · cases h

theorem length_of_ofJson {v : Json} {t : Tag} (ht : Tag.holdsId t.name = true)
    (h : ofJson v = .ok (.indexed t)) : t.value.length = 32 := by
  rw [ofJson.eq_def] at h
  split at h
  · exact length_of_ofStrings ht h
  all_goals cases h

theorem indexed_of_mem_tags {ws : List WireTag} {t : Tag} (h : t ∈ tags ws) : .indexed t ∈ ws := by
  obtain ⟨w, hw, hwt⟩ := List.mem_filterMap.1 h
  cases w with
  | indexed u =>
    cases hwt
    exact hw
  | expiration _ => cases hwt
  | skipped => cases hwt

end WireTag

/-- Every tag of an event that was read was read from a tag in JSON. -/
theorem Event.FromJson.exists_wireTag {e : Event} (h : e.FromJson) {t : Tag} (ht : t ∈ e.tags) :
    ∃ raw, WireTag.ofJson raw = .ok (.indexed t) := by
  obtain ⟨v, h⟩ := h
  cases v with
  | object fields =>
    obtain ⟨id, -, h⟩ := exists_of_bind_eq_ok h
    obtain ⟨author, -, h⟩ := exists_of_bind_eq_ok h
    obtain ⟨createdAt, -, h⟩ := exists_of_bind_eq_ok h
    obtain ⟨kind, -, h⟩ := exists_of_bind_eq_ok h
    split at h
    · obtain ⟨ws, hws, h⟩ := exists_of_bind_eq_ok h
      cases h
      obtain ⟨raw, -, hraw⟩ := exists_of_mem_mapM hws (WireTag.indexed_of_mem_tags ht)
      exact ⟨raw, hraw⟩
    · cases h
  | _ => cases h

theorem Event.FromJson.hasIdTags {e : Event} (h : e.FromJson) : e.HasIdTags := by
  intro t ht hname
  obtain ⟨raw, hraw⟩ := h.exists_wireTag ht
  exact WireTag.length_of_ofJson hname hraw

/-! ### Filters -/

/-- Whether a value has a size that values of tags of this name may have. -/
structure Tag.HasSize (name : UInt8) (value : Bytes) : Prop where
  length_le : value.length ≤ Tag.maxValueSize
  length_id : Tag.holdsId name = true → value.length = 32

namespace Filter

/-- Whether a filter can be read from some JSON value. -/
def FromJson (f : Filter) : Prop := ∃ maxLimit v, ofJson maxLimit v = .ok f

/-- The number of fields in which a filter lists values. -/
def fieldCount (f : Filter) : Nat :=
  f.ids.isSome.toNat + f.authors.isSome.toNat + f.kinds.isSome.toNat + f.tags.length

/-- What reading settles of a filter. -/
structure WellRead (f : Filter) : Prop where
  length_value : ∀ t ∈ f.tags, Tag.holdsId t.1 = true → ∀ value ∈ t.2, value.length = 32
  fieldCount_le : f.indexOnly = true →
    f.fieldCount ≤ 1 ∨ (f.fieldCount = 2 ∧ f.authors.isSome ∧ f.kinds.isSome)

namespace Clause

/-- Whether the values of a clause on a tag have the sizes that such values may have. -/
def HasSizes : Clause → Prop
  | .tag name values => ∀ value ∈ values, Tag.HasSize name value
  | _ => True

theorem length_of_readId {item : Json} {value : Bytes} (h : (readId item).map Id.bytes = .ok value) :
    value.length = 32 := by
  obtain ⟨i, -, rfl⟩ : ∃ i, readId item = .ok i ∧ i.bytes = value := by
    cases hi : readId item with
    | error e => rw [hi] at h; cases h
    | ok i => rw [hi] at h; exact ⟨i, rfl, Except.ok.inj h⟩
  exact i.length_bytes

theorem length_of_readText {item : Json} {value : Bytes} (h : readText item = .ok value) :
    value.length ≤ Tag.maxValueSize := by
  cases item with
  | string s =>
    simp only [readText] at h
    split at h
    · cases h
    · rename_i hshort
      cases h
      exact Nat.not_lt.1 hshort
  | _ => cases h

theorem hasSize_of_readTagValue {name : UInt8} {item : Json} {value : Bytes}
    (h : readTagValue name item = .ok value) : Tag.HasSize name value := by
  rw [readTagValue] at h
  split at h
  · have hlength := length_of_readId h
    exact ⟨hlength ▸ by decide, fun _ => hlength⟩
  · rename_i hname
    exact ⟨length_of_readText h, fun hholds => absurd hholds hname⟩

theorem hasSizes_of_ofValue {key : String} {v : Json} {field : Field} {c : Clause}
    (h : ofValue key v field = .ok c) : c.HasSizes := by
  cases field with
  | tag name =>
    obtain ⟨items, -, h⟩ := exists_of_bind_eq_ok h
    obtain ⟨values, hvalues, h⟩ := exists_of_bind_eq_ok h
    cases h
    intro value hvalue
    obtain ⟨item, -, hitem⟩ := exists_of_mem_mapM hvalues (OrderedSet.mem_ofList.1 hvalue)
    exact hasSize_of_readTagValue hitem
  | ids | authors | kinds =>
    obtain ⟨items, -, h⟩ := exists_of_bind_eq_ok h
    obtain ⟨values, -, h⟩ := exists_of_bind_eq_ok h
    cases h
    trivial
  | since | upTo | limit =>
    obtain ⟨n, -, h⟩ := exists_of_bind_eq_ok h
    cases h
    trivial

theorem hasSizes_of_ofField {field : String × Json} {c : Clause} (h : ofField field = .ok c) :
    c.HasSizes := by
  obtain ⟨name, -, h⟩ := exists_of_bind_eq_ok h
  split at h
  · cases h
    trivial
  · exact hasSizes_of_ofValue h

end Clause

theorem mem_placeTag {name : UInt8} {values : ValueSet} {l : List (UInt8 × ValueSet)}
    {t : UInt8 × ValueSet} (h : t ∈ placeTag name values l) : t = (name, values) ∨ t ∈ l := by
  induction l with
  | nil => exact .inl (List.mem_singleton.1 h)
  | cons u rest ih =>
    rw [placeTag] at h
    split at h
    · exact List.mem_cons.1 h
    · split at h
      · rcases List.mem_cons.1 h with h | h
        · exact .inl h
        · exact .inr (List.mem_cons_of_mem _ h)
      · rcases List.mem_cons.1 h with rfl | h
        · exact .inr List.mem_cons_self
        · exact (ih h).imp_right (List.mem_cons_of_mem _)

theorem length_placeTag_le {name : UInt8} {values : ValueSet} {l : List (UInt8 × ValueSet)} :
    (placeTag name values l).length ≤ l.length + 1 := by
  induction l with
  | nil => exact Nat.le_refl _
  | cons u rest ih =>
    rw [placeTag]
    split
    · exact Nat.le_refl _
    · split
      · exact Nat.le_succ _
      · exact Nat.succ_le_succ ih

/-- A clause that lists values adds a field at most, any other none. -/
theorem fieldCount_restrict_le {f : Filter} {c : Clause} :
    (f.restrict c).fieldCount ≤ f.fieldCount + if c.isMajor then 1 else 0 := by
  cases c with
  | ids set =>
    have : f.ids.isSome.toNat ≤ 1 := Bool.toNat_le _
    simp only [restrict, fieldCount, Clause.isMajor, Option.isSome_some, Bool.toNat_true,
      if_true]
    omega
  | authors set =>
    simp only [restrict, fieldCount, Clause.isMajor, Option.isSome_some, Bool.toNat_true,
      if_true]
    omega
  | kinds set =>
    simp only [restrict, fieldCount, Clause.isMajor, Option.isSome_some, Bool.toNat_true,
      if_true]
    omega
  | tag name values =>
    have := @length_placeTag_le name values f.tags
    simp only [restrict, fieldCount, Clause.isMajor, if_true]
    omega
  | nothing | since | upTo | limit => exact Nat.le_refl _

theorem fieldCount_foldl_le {clauses : List Clause} {f : Filter} :
    (clauses.foldl restrict f).fieldCount ≤ f.fieldCount + clauses.countP Clause.isMajor := by
  induction clauses generalizing f with
  | nil => exact Nat.le_refl _
  | cons c rest ih =>
    have hstep := @fieldCount_restrict_le f c
    have hrest := @ih (f.restrict c)
    rw [List.foldl_cons, List.countP_cons]
    omega

theorem hasSize_foldl {clauses : List Clause} (hclauses : ∀ c ∈ clauses, c.HasSizes) {f : Filter}
    (hf : ∀ t ∈ f.tags, ∀ value ∈ t.2, Tag.HasSize t.1 value) :
    ∀ t ∈ (clauses.foldl restrict f).tags, ∀ value ∈ t.2, Tag.HasSize t.1 value := by
  induction clauses generalizing f with
  | nil => exact hf
  | cons c rest ih =>
    obtain ⟨hc, hrest⟩ := List.forall_mem_cons.1 hclauses
    apply ih hrest
    cases c with
    | tag name values =>
      intro t ht
      rcases mem_placeTag ht with rfl | ht
      · exact hc
      · exact hf t ht
    | _ => exact hf

theorem hasSize_ofClauses {maxLimit : UInt64} {clauses : List Clause} {f : Filter}
    (hclauses : ∀ c ∈ clauses, c.HasSizes) (h : ofClauses maxLimit clauses = .ok f) :
    ∀ t ∈ f.tags, ∀ value ∈ t.2, Tag.HasSize t.1 value := by
  simp only [ofClauses] at h
  split at h
  · cases h
  · cases h
    exact hasSize_foldl hclauses nofun

theorem wellRead_ofClauses {maxLimit : UInt64} {clauses : List Clause} {f : Filter}
    (hclauses : ∀ c ∈ clauses, c.HasSizes) (h : ofClauses maxLimit clauses = .ok f) : f.WellRead := by
  refine ⟨fun t ht hname value hvalue => (hasSize_ofClauses hclauses h t ht value hvalue).length_id hname, ?_⟩
  simp only [ofClauses] at h
  split at h
  · cases h
  · cases h
    intro hindex
    have hcount : (clauses.foldl restrict unrestricted).fieldCount
        ≤ clauses.countP Clause.isMajor := by
      simpa [unrestricted, fieldCount] using @fieldCount_foldl_le clauses unrestricted
    simp only [Bool.or_eq_true, Bool.and_eq_true, decide_eq_true_eq] at hindex
    rcases hindex with hone | ⟨⟨htwo, hauthors⟩, hkinds⟩
    · exact .inl (Nat.le_trans hcount hone)
    · refine .inr ⟨?_, hauthors, hkinds⟩
      have hboth : 2 ≤ (clauses.foldl restrict unrestricted).fieldCount := by
        rw [fieldCount, hauthors, hkinds]
        simp only [Bool.toNat_true]
        omega
      exact Nat.le_antisymm (htwo ▸ hcount) hboth

/-- A filter is made of clauses whose values have their sizes. -/
theorem FromJson.exists_clauses {f : Filter} (h : f.FromJson) :
    ∃ maxLimit clauses, (∀ c ∈ clauses, c.HasSizes) ∧ ofClauses maxLimit clauses = .ok f := by
  obtain ⟨maxLimit, v, h⟩ := h
  cases v with
  | object fields =>
    obtain ⟨clauses, hclauses, h⟩ := exists_of_bind_eq_ok h
    refine ⟨maxLimit, clauses, fun c hc => ?_, h⟩
    obtain ⟨field, -, hfield⟩ := exists_of_mem_mapM hclauses hc
    exact Clause.hasSizes_of_ofField hfield
  | _ => cases h

theorem FromJson.wellRead {f : Filter} (h : f.FromJson) : f.WellRead := by
  obtain ⟨maxLimit, clauses, hclauses, h⟩ := h.exists_clauses
  exact wellRead_ofClauses hclauses h

theorem FromJson.hasSize {f : Filter} (h : f.FromJson) :
    ∀ t ∈ f.tags, ∀ value ∈ t.2, Tag.HasSize t.1 value := by
  obtain ⟨maxLimit, clauses, hclauses, h⟩ := h.exists_clauses
  exact hasSize_ofClauses hclauses h

end Filter

end EventRelay
