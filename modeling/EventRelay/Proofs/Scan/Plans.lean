import EventRelay.Scan.Plan
import EventRelay.Proofs.Reading
import EventRelay.Proofs.Index.KeyOrder
/-!
# Plans and what they cover

Every event that a filter accepts has a key under one of the stems of the filter's plan, and where the
plan lets the index decide, every event with such a key is accepted if its time fits.  If the field
that the plan searches holds identifiers or numbers, all keys of its index that begin with one of the
stems are the stem's own.

Main statements: `IsPlan.exists_stem`, `IsPlan.accepts_of_stem` and `IsPlan.length_of_isPrefix`, on the
ways a plan is made (`isPlan_ofFilter`).
-/

namespace EventRelay

namespace Event

/-- The stems of an event in an index. -/
def stems (e : Event) : IndexKind → List Bytes
  | .id => [Stem.ofId e.id]
  | .author => [Stem.ofAuthor e.author]
  | .kind => [Stem.ofKind e.kind]
  | .authorKind => [Stem.ofAuthorKind e.author e.kind]
  | .tag => e.tags.map fun t => Stem.ofTag t.name t.value
  | .createdAt => [[]]

theorem mem_indexEntries_iff {e : Event} {k : IndexKind} {key : Bytes} :
    (k, key) ∈ e.indexEntries ↔ ∃ stem ∈ e.stems k, key = IndexKey.make stem e.createdAt := by
  cases k with
  | tag =>
    simp only [indexEntries, stems, List.mem_append, List.mem_map, List.mem_cons, Prod.mk.injEq,
      reduceCtorEq, false_and, List.not_mem_nil, or_false, false_or, true_and]
    constructor
    · rintro ⟨t, ht, rfl⟩
      exact ⟨_, ⟨t, ht, rfl⟩, rfl⟩
    · rintro ⟨_, ⟨t, ht, rfl⟩, rfl⟩
      exact ⟨t, ht, rfl⟩
  | id | author | kind | authorKind | createdAt => simp [indexEntries, stems]

theorem tag_mem_stems {e : Event} {name : UInt8} {value : Bytes} :
    Stem.ofTag name value ∈ e.stems .tag ↔ ⟨name, value⟩ ∈ e.tags := by
  simp only [stems, List.mem_map, Stem.ofTag, List.cons.injEq]
  constructor
  · rintro ⟨t, ht, rfl, rfl⟩
    exact ht
  · intro h
    exact ⟨_, h, rfl, rfl⟩

end Event

/-- Whether the values of a field have one size: identifiers and numbers do, text does not. -/
def PrimaryField.isFixed : PrimaryField → Bool
  | .tag name _ => Tag.holdsId name
  | _ => true

namespace Filter

/-- What it takes to be accepted. -/
theorem accepts_iff {f : Filter} {e : Event} :
    f.accepts e = true ↔ f.neverMatch = false ∧ f.matchesTime e.createdAt = true
      ∧ (∀ ids, f.ids = some ids → e.id ∈ ids) ∧ (∀ authors, f.authors = some authors → e.author ∈ authors)
      ∧ (∀ kinds, f.kinds = some kinds → e.kind ∈ kinds)
      ∧ ∀ t ∈ f.tags, ∃ value ∈ t.2, ⟨t.1, value⟩ ∈ e.tags := by
  simp only [accepts, Bool.and_eq_true, Bool.not_eq_true', Option.all_eq_true, OrderedSet.contains_iff,
    List.all_eq_true, List.any_eq_true, Event.mem_tagValues, and_assoc]
  refine and_congr_right fun _ => and_congr_right fun _ => and_congr_right fun _ =>
    and_congr_right fun _ => and_congr_right fun _ => forall_congr' fun t => forall_congr' fun _ => ?_
  constructor
  · rintro ⟨value, hv, hmem⟩
    exact ⟨value, hmem, hv⟩
  · rintro ⟨value, hmem, hv⟩
    exact ⟨value, hv, hmem⟩

theorem mem_of_fewestValues {l : List (UInt8 × ValueSet)} {t : UInt8 × ValueSet}
    (h : fewestValues l = some t) : t ∈ l := by
  induction l with
  | nil => cases h
  | cons u rest ih =>
    rw [fewestValues] at h
    split at h
    · rename_i w hw
      split at h
      · cases h
        exact List.mem_cons_self
      · cases h
        exact List.mem_cons_of_mem _ (ih hw)
    · cases h
      exact List.mem_cons_self

theorem eq_nil_of_fewestValues {l : List (UInt8 × ValueSet)} (h : fewestValues l = none) : l = [] := by
  cases l with
  | nil => rfl
  | cons u rest =>
    rw [fewestValues] at h
    split at h
    · split at h <;> cases h
    · cases h

end Filter

namespace Plan

/-- The ways a plan is made for a filter. -/
inductive IsPlan (f : Filter) : Plan → Prop
  | never : f.neverMatch = true → IsPlan f ⟨.createdAt, [], f.indexOnly⟩
  | ids {ids} : f.neverMatch = false → f.ids = some ids →
      IsPlan f ⟨.id, ids.toList.map Stem.ofId, f.indexOnly⟩
  | tag {name values} : f.neverMatch = false → f.primaryField = .tag name values →
      (name, values) ∈ f.tags →
      IsPlan f ⟨.tag, values.toList.map (Stem.ofTag name), f.indexOnly⟩
  | authors {authors} : f.neverMatch = false → f.ids = none → f.tags = [] → f.authors = some authors →
      f.kinds = none → IsPlan f ⟨.author, authors.toList.map Stem.ofAuthor, f.indexOnly⟩
  | pairs {authors kinds} : f.neverMatch = false → f.ids = none → f.tags = [] →
      f.authors = some authors → f.kinds = some kinds →
      IsPlan f ⟨.authorKind,
        authors.toList.flatMap fun a => kinds.toList.map fun k => Stem.ofAuthorKind a k, f.indexOnly⟩
  | manyPairs {authors} : f.neverMatch = false → f.authors = some authors →
      IsPlan f ⟨.author, authors.toList.map Stem.ofAuthor, false⟩
  | kinds {kinds} : f.neverMatch = false → f.ids = none → f.tags = [] → f.authors = none →
      f.kinds = some kinds → IsPlan f ⟨.kind, kinds.toList.map Stem.ofKind, f.indexOnly⟩
  | all : f.neverMatch = false → f.ids = none → f.tags = [] → f.authors = none → f.kinds = none →
      IsPlan f ⟨.createdAt, [[]], f.indexOnly⟩

theorem isPlan_ofFilter (f : Filter) (authorKindCap : UInt64) :
    IsPlan f (ofFilter f authorKindCap) := by
  rw [ofFilter]
  split
  · rename_i hnever
    exact .never hnever
  · rename_i hnever
    have hnever : f.neverMatch = false := by simpa using hnever
    -- the cases follow the order in which a primary field is chosen
    cases hids : f.ids with
    | some ids =>
      have hprimary : f.primaryField = .ids ids := by rw [Filter.primaryField, hids]
      rw [hprimary]
      exact .ids hnever hids
    | none =>
      cases htags : Filter.fewestValues f.tags with
      | some t =>
        obtain ⟨name, values⟩ := t
        have hprimary : f.primaryField = .tag name values := by rw [Filter.primaryField, hids, htags]
        rw [hprimary]
        exact .tag hnever hprimary (Filter.mem_of_fewestValues htags)
      | none =>
        have hnil := Filter.eq_nil_of_fewestValues htags
        cases hauthors : f.authors with
        | some authors =>
          have hprimary : f.primaryField = .authors authors := by
            rw [Filter.primaryField, hids, htags, hauthors]
          rw [hprimary]
          show IsPlan f (ofAuthors f authors authorKindCap)
          rw [ofAuthors]
          cases hkinds : f.kinds with
          | none => exact .authors hnever hids hnil hauthors hkinds
          | some kinds =>
            simp only
            split
            · exact .pairs hnever hids hnil hauthors hkinds
            · exact .manyPairs hnever hauthors
        | none =>
          cases hkinds : f.kinds with
          | some kinds =>
            have hprimary : f.primaryField = .kinds kinds := by
              rw [Filter.primaryField, hids, htags, hauthors, hkinds]
            rw [hprimary]
            exact .kinds hnever hids hnil hauthors hkinds
          | none =>
            have hprimary : f.primaryField = .none := by
              rw [Filter.primaryField, hids, htags, hauthors, hkinds]
            rw [hprimary]
            exact .all hnever hids hnil hauthors hkinds

/-- A plan has a stem for every event that the filter accepts. -/
theorem IsPlan.exists_stem {f : Filter} {p : Plan} (h : IsPlan f p) {e : Event}
    (he : f.accepts e = true) : ∃ stem ∈ p.stems, stem ∈ e.stems p.index := by
  obtain ⟨hnever, -, hids, hauthors, hkinds, htags⟩ := Filter.accepts_iff.1 he
  cases h with
  | never h =>
    rw [hnever] at h
    cases h
  | ids _ h => exact ⟨Stem.ofId e.id, List.mem_map_of_mem (hids _ h), List.mem_singleton_self _⟩
  | tag _ _ h =>
    obtain ⟨value, hvalue, hmem⟩ := htags _ h
    exact ⟨_, List.mem_map_of_mem hvalue, Event.tag_mem_stems.2 hmem⟩
  | authors _ _ _ h _ =>
    exact ⟨Stem.ofAuthor e.author, List.mem_map_of_mem (hauthors _ h), List.mem_singleton_self _⟩
  | pairs _ _ _ ha hk =>
    refine ⟨Stem.ofAuthorKind e.author e.kind, ?_, List.mem_singleton_self _⟩
    exact List.mem_flatMap.2 ⟨e.author, hauthors _ ha, List.mem_map_of_mem (hkinds _ hk)⟩
  | manyPairs _ h =>
    exact ⟨Stem.ofAuthor e.author, List.mem_map_of_mem (hauthors _ h), List.mem_singleton_self _⟩
  | kinds _ _ _ _ h =>
    exact ⟨Stem.ofKind e.kind, List.mem_map_of_mem (hkinds _ h), List.mem_singleton_self _⟩
  | all => exact ⟨[], List.mem_singleton_self _, List.mem_singleton_self _⟩

end Plan

namespace Stem

theorem ofId_inj {i j : Id} (h : ofId i = ofId j) : i = j := by
  obtain ⟨s, hs⟩ := i
  obtain ⟨t, ht⟩ := j
  cases (h : s = t)
  rfl

theorem ofKind_inj {k l : UInt64} (h : ofKind k = ofKind l) : k = l := by
  have := congrArg Bytes.ofBigEndian h
  simpa [ofKind] using this

theorem ofAuthorKind_inj {a b : Id} {k l : UInt64} (h : ofAuthorKind a k = ofAuthorKind b l) :
    a = b ∧ k = l := by
  have hlen : a.bytes.length = b.bytes.length := by rw [a.length_bytes, b.length_bytes]
  obtain ⟨ha, hk⟩ := List.append_inj h hlen
  exact ⟨ofId_inj ha, ofKind_inj hk⟩

end Stem

namespace Filter

theorem forall_of_eq_some {α : Type} {o : Option α} {a : α} {p : α → Prop} (h : o = some a)
    (ha : p a) : ∀ b, o = some b → p b := by
  intro b hb
  rw [h] at hb
  cases hb
  exact ha

theorem eq_none_of_toNat {α : Type} {o : Option α} (h : o.isSome.toNat = 0) : o = none := by
  cases o with
  | none => rfl
  | some a => cases h

/-- A filter that asks for identifiers and lets the index decide lists no other values. -/
theorem WellRead.only_ids {f : Filter} (hf : f.WellRead) (hindex : f.indexOnly = true) {ids : IdSet}
    (hids : f.ids = some ids) : f.authors = none ∧ f.kinds = none ∧ f.tags = [] := by
  have hcount : f.fieldCount ≤ 1 := by
    rcases hf.fieldCount_le hindex with h | ⟨h, hauthors, hkinds⟩
    · exact h
    · rw [fieldCount, hids, hauthors, hkinds] at h
      simp only [Option.isSome_some, Bool.toNat_true] at h
      omega
  rw [fieldCount, hids] at hcount
  simp only [Option.isSome_some, Bool.toNat_true] at hcount
  refine ⟨eq_none_of_toNat (by omega), eq_none_of_toNat (by omega), ?_⟩
  exact List.length_eq_zero_iff.1 (by omega)

/-- A filter that asks for a tag and lets the index decide lists no other values. -/
theorem WellRead.only_tag {f : Filter} (hf : f.WellRead) (hindex : f.indexOnly = true)
    {t : UInt8 × ValueSet} (ht : t ∈ f.tags) :
    f.ids = none ∧ f.authors = none ∧ f.kinds = none ∧ f.tags = [t] := by
  have hpos := List.length_pos_of_mem ht
  have hcount : f.fieldCount ≤ 1 := by
    rcases hf.fieldCount_le hindex with h | ⟨h, hauthors, hkinds⟩
    · exact h
    · rw [fieldCount, hauthors, hkinds] at h
      simp only [Bool.toNat_true] at h
      omega
  rw [fieldCount] at hcount
  refine ⟨eq_none_of_toNat (by omega), eq_none_of_toNat (by omega), eq_none_of_toNat (by omega), ?_⟩
  obtain ⟨u, hu⟩ := List.length_eq_one_iff.1 (show f.tags.length = 1 by omega)
  rw [hu] at ht ⊢
  rw [List.mem_singleton.1 ht]

end Filter

namespace Plan

/-- Where the index decides, an event with a stem of the plan is accepted if its time fits: the filter
lists no values but those that the stem is made of. -/
theorem IsPlan.accepts_of_stem {f : Filter} {p : Plan} (h : IsPlan f p) (hf : f.WellRead)
    (hindex : p.indexOnly = true) {e : Event} {stem : Bytes} (hp : stem ∈ p.stems)
    (he : stem ∈ e.stems p.index) (htime : f.matchesTime e.createdAt = true) : f.accepts e = true := by
  rw [Filter.accepts_iff]
  cases h with
  | never => cases hp
  | ids hnever hids =>
    obtain ⟨i, hi, rfl⟩ := List.mem_map.1 hp
    cases Stem.ofId_inj (List.mem_singleton.1 he)
    obtain ⟨hauthors, hkinds, htags⟩ := hf.only_ids hindex hids
    exact ⟨hnever, htime, Filter.forall_of_eq_some hids hi, by simp [hauthors], by simp [hkinds],
      by simp [htags]⟩
  | tag hnever _ hmem =>
    obtain ⟨value, hvalue, rfl⟩ := List.mem_map.1 hp
    obtain ⟨hids, hauthors, hkinds, htags⟩ := hf.only_tag hindex hmem
    refine ⟨hnever, htime, by simp [hids], by simp [hauthors], by simp [hkinds], ?_⟩
    intro t ht
    rw [htags] at ht
    cases List.mem_singleton.1 ht
    exact ⟨value, hvalue, Event.tag_mem_stems.1 he⟩
  | authors hnever hids htags hauthors hkinds =>
    obtain ⟨a, ha, rfl⟩ := List.mem_map.1 hp
    cases Stem.ofId_inj (List.mem_singleton.1 he)
    exact ⟨hnever, htime, by simp [hids], Filter.forall_of_eq_some hauthors ha, by simp [hkinds],
      by simp [htags]⟩
  | pairs hnever hids htags hauthors hkinds =>
    obtain ⟨a, ha, hp⟩ := List.mem_flatMap.1 hp
    obtain ⟨k, hk, rfl⟩ := List.mem_map.1 hp
    obtain ⟨rfl, rfl⟩ := Stem.ofAuthorKind_inj (List.mem_singleton.1 he)
    exact ⟨hnever, htime, by simp [hids], Filter.forall_of_eq_some hauthors ha,
      Filter.forall_of_eq_some hkinds hk, by simp [htags]⟩
  | manyPairs => cases hindex
  | kinds hnever hids htags hauthors hkinds =>
    obtain ⟨k, hk, rfl⟩ := List.mem_map.1 hp
    cases Stem.ofKind_inj (List.mem_singleton.1 he)
    exact ⟨hnever, htime, by simp [hids], by simp [hauthors], Filter.forall_of_eq_some hkinds hk,
      by simp [htags]⟩
  | all hnever hids htags hauthors hkinds =>
    exact ⟨hnever, htime, by simp [hids], by simp [hauthors], by simp [hkinds], by simp [htags]⟩

/-- Where the values of the primary field have one size, a key that begins with a stem of the plan is
one of that stem. -/
theorem IsPlan.length_of_isPrefix {f : Filter} {p : Plan} (h : IsPlan f p) (hf : f.WellRead)
    (hfixed : f.primaryField.isFixed = true) {e : Event} (htags : e.HasIdTags) {stem other : Bytes}
    {time : UInt64} (hp : stem ∈ p.stems) (he : other ∈ e.stems p.index)
    (hbegins : stem <+: IndexKey.make other time) : other.length = stem.length := by
  cases h with
  | never => cases hp
  | ids =>
    obtain ⟨i, -, rfl⟩ := List.mem_map.1 hp
    cases List.mem_singleton.1 he
    rw [Stem.ofId, Stem.ofId, Id.length_bytes, Id.length_bytes]
  | tag _ hprimary hmem =>
    obtain ⟨value, hvalue, rfl⟩ := List.mem_map.1 hp
    obtain ⟨t, ht, rfl⟩ := List.mem_map.1 he
    rw [hprimary] at hfixed
    -- both stems start with the name of the tag
    have hname := (List.cons_prefix_cons.1 hbegins).1
    have hvalue := hf.length_value _ hmem hfixed value hvalue
    have hother := htags t ht (hname ▸ hfixed)
    rw [Stem.ofTag, Stem.ofTag, List.length_cons, List.length_cons, hvalue, hother]
  | authors | manyPairs =>
    obtain ⟨a, -, rfl⟩ := List.mem_map.1 hp
    cases List.mem_singleton.1 he
    rw [Stem.ofAuthor, Stem.ofAuthor, Id.length_bytes, Id.length_bytes]
  | pairs =>
    obtain ⟨a, -, hp⟩ := List.mem_flatMap.1 hp
    obtain ⟨k, -, rfl⟩ := List.mem_map.1 hp
    cases List.mem_singleton.1 he
    simp [Stem.ofAuthorKind, Id.length_bytes]
  | kinds =>
    obtain ⟨k, -, rfl⟩ := List.mem_map.1 hp
    cases List.mem_singleton.1 he
    simp [Stem.ofKind]
  | all =>
    cases List.mem_singleton.1 hp
    cases List.mem_singleton.1 he
    rfl

end Plan

end EventRelay
