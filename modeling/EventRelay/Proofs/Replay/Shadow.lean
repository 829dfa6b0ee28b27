import EventRelay.Proofs.Replay.Delivery
/-!
# Values that hide others

The keys of the tag index give the value of a tag without its length, so the keys of a longer value lie
among those of a value that it begins with.  A walk under the shorter value ends at such a key, and the
matches behind it are not found, although nothing else is wrong with them.

Main statements: `mem_yield_of_tag` (which matches are found) and `served_of_tag`, which says just when
all of them are.
-/

namespace EventRelay

namespace View

/-- Whether a key of another tag lies between the key of a tag value at some time and the last key of
that value in the range asked for. -/
def Shadows (v : View) (t : Tag) (time upTo : UInt64) : Prop :=
  ∃ seq e, v.event? seq = some e ∧ ∃ u ∈ e.tags, u ≠ t
    ∧ Bytes.cmp (IndexKey.make (Stem.ofTag t.name t.value) time)
        (IndexKey.make (Stem.ofTag u.name u.value) e.createdAt) = .lt
    ∧ Bytes.cmp (IndexKey.make (Stem.ofTag u.name u.value) e.createdAt)
        (IndexKey.make (Stem.ofTag t.name t.value) upTo) = .lt

instance (v : View) (t : Tag) (time upTo : UInt64) : Decidable (v.Shadows t time upTo) :=
  decidable_of_iff
    (∃ x ∈ v.events, ∃ u ∈ x.2.tags, u ≠ t
      ∧ Bytes.cmp (IndexKey.make (Stem.ofTag t.name t.value) time)
          (IndexKey.make (Stem.ofTag u.name u.value) x.2.createdAt) = .lt
      ∧ Bytes.cmp (IndexKey.make (Stem.ofTag u.name u.value) x.2.createdAt)
          (IndexKey.make (Stem.ofTag t.name t.value) upTo) = .lt)
    (by
      constructor
      · rintro ⟨⟨seq, e⟩, he, h⟩
        exact ⟨seq, e, mem_events.1 he, h⟩
      · rintro ⟨seq, e, he, h⟩
        exact ⟨(seq, e), mem_events.2 he, h⟩)

theorem ownedBy_tag_iff {t u : Tag} {time : UInt64} :
    IndexKey.ownedBy (Stem.ofTag t.name t.value) (IndexKey.make (Stem.ofTag u.name u.value) time) = true
      ↔ u = t := by
  rw [IndexKey.ownedBy_make_iff]
  simp only [Stem.ofTag, List.cons.injEq]
  constructor
  · rintro ⟨hname, hvalue⟩
    cases t
    cases u
    cases hname
    cases hvalue
    rfl
  · rintro rfl
    exact ⟨rfl, rfl⟩

/-- The keys of a value are clear of others just if none of another tag shadows it. -/
theorem isClear_tag_iff {v : View} (hv : v.Mirrors) {t : Tag} {time upTo : UInt64} :
    v.IsClear .tag (Stem.ofTag t.name t.value) time upTo ↔ ¬ v.Shadows t time upTo := by
  constructor
  · rintro hclear ⟨seq, e, he, u, hu, hne, hlo, hhi⟩
    have hmem : ⟨IndexKey.make (Stem.ofTag u.name u.value) e.createdAt, seq⟩ ∈ v.indices.get .tag :=
      hv.mem_get_make_iff.2 ⟨e, he, Event.tag_mem_stems.2 hu, rfl⟩
    have howned := hclear _ hmem (by rw [hlo]; decide) (by rw [hhi]; decide)
    exact hne (ownedBy_tag_iff.1 howned)
  · rintro hnone ⟨key, seq⟩ hmem hlo hhi
    obtain ⟨e, he, hentry⟩ := hv.mem_get_iff.1 hmem
    obtain ⟨stem, hstem, hkey⟩ := Event.mem_indexEntries_iff.1 hentry
    obtain ⟨u, hu, rfl⟩ := List.mem_map.1 hstem
    cases (hkey : key = _)
    by_cases hne : u = t
    · exact ownedBy_tag_iff.2 hne
    · -- a key of another tag is none of the two ends, so it lies strictly between them
      have hdiff : ∀ s : UInt64, IndexKey.make (Stem.ofTag t.name t.value) s
          ≠ IndexKey.make (Stem.ofTag u.name u.value) e.createdAt := by
        intro s heq
        exact hne (ownedBy_tag_iff.1 (heq ▸ IndexKey.ownedBy_make))
      refine absurd ⟨seq, e, he, u, hu, hne, ?_, ?_⟩ hnone
      · cases hcmp : Bytes.cmp (IndexKey.make (Stem.ofTag t.name t.value) time)
            (IndexKey.make (Stem.ofTag u.name u.value) e.createdAt) with
        | lt => rfl
        | eq => exact absurd (Bytes.eq_of_cmp hcmp) (hdiff time)
        | gt => exact absurd hcmp hlo
      · cases hcmp : Bytes.cmp (IndexKey.make (Stem.ofTag u.name u.value) e.createdAt)
            (IndexKey.make (Stem.ofTag t.name t.value) upTo) with
        | lt => rfl
        | eq => exact absurd (Bytes.eq_of_cmp hcmp).symm (hdiff upTo)
        | gt => exact absurd hcmp hhi

end View

namespace Replay

/-- What a filter yields that is searched by a tag. -/
theorem mem_yield_of_tag {f : Filter} (hf : f.FromJson) {name : UInt8} {values : ValueSet}
    (hprimary : f.primaryField = .tag name values) {cap : UInt64} {v : View} (hv : v.Mirrors)
    {watermark : Nat} (hlatest : v.latestSeq ≤ watermark)
    (hlimit : (f.matchesIn v watermark).length ≤ f.limit.toNat) {seq : Nat} :
    seq ∈ Scan.yield f cap v watermark ↔ ∃ e, v.event? seq = some e ∧ f.accepts e = true
      ∧ ∃ value ∈ values, ⟨name, value⟩ ∈ e.tags ∧ ¬ v.Shadows ⟨name, value⟩ e.createdAt f.upTo := by
  have hawaited := fun n =>
    @Scan.mem_awaited_ofPlan f _ (Plan.isPlan_ofFilter f cap) hf.wellRead v hv watermark n
  -- the limit cuts nothing off, for what is awaited are matches
  have hsubset : ((Scan.ofFilter f cap).awaited v watermark).eraseDups ⊆ f.matchesIn v watermark := by
    intro n hn
    obtain ⟨hle, e, he, haccepts, -⟩ := (hawaited n).1 (List.mem_eraseDups.1 hn)
    exact Filter.mem_matchesIn.2 ⟨hle, e, he, haccepts⟩
  have hlen := List.Nodup.length_le_of_subset (nodup_eraseDups _) hsubset
  rw [Scan.yield, List.take_of_length_le (Nat.le_trans hlen hlimit), List.mem_eraseDups]
  refine (hawaited seq).trans ?_
  -- a filter that never matches has no plan, but then it accepts nothing
  have hplan : f.neverMatch = false →
      Plan.ofFilter f cap = ⟨.tag, values.toList.map (Stem.ofTag name), f.indexOnly⟩ := by
    intro hnever
    rw [Plan.ofFilter, if_neg (by simp [hnever]), hprimary]
  constructor
  · rintro ⟨-, e, he, haccepts, stem, hstem, hstem', hclear⟩
    rw [hplan (Filter.accepts_iff.1 haccepts).1] at hstem hstem' hclear
    obtain ⟨value, hvalue, rfl⟩ := List.mem_map.1 hstem
    refine ⟨e, he, haccepts, value, hvalue, Event.tag_mem_stems.1 hstem', ?_⟩
    exact (View.isClear_tag_iff (t := ⟨name, value⟩) hv).1 hclear
  · rintro ⟨e, he, haccepts, value, hvalue, htag, hshadows⟩
    refine ⟨Nat.le_trans (hv.bounded he) hlatest, e, he, haccepts, ?_⟩
    rw [hplan (Filter.accepts_iff.1 haccepts).1]
    refine ⟨Stem.ofTag name value, List.mem_map_of_mem hvalue, Event.tag_mem_stems.2 htag, ?_⟩
    exact (View.isClear_tag_iff (t := ⟨name, value⟩) hv).2 hshadows

/-- A replay of one filter delivers what the filter yields. -/
theorem mem_serve_singleton {f : Filter} {who : Recipient} {w : Nat} {cap : UInt64} {logScans : Bool}
    {v : View} {clocks : Nat → Clock} {seq : Nat} :
    seq ∈ ((start ⟨⟨who, ⟨[f]⟩⟩, w⟩ cap logScans).serve v clocks 0).1.flatten ↔
      seq ∈ Scan.yield f cap v w := by
  have hflatten := (serve_spec (r := start ⟨⟨who, ⟨[f]⟩⟩, w⟩ cap logScans) sound_start v clocks 0).2
  rw [outlook_start, List.flatMap_singleton] at hflatten
  have hdelivered : (start ⟨⟨who, ⟨[f]⟩⟩, w⟩ cap logScans).delivered = [] := rfl
  rw [hdelivered, List.nil_append] at hflatten
  rw [hflatten, List.mem_eraseDups]

/-- A filter that asks for one value of the tag `t`. -/
def asking (value : Bytes) : Filter :=
  { Filter.unrestricted with tags := [(0x74, .ofList [value])], indexOnly := true }

/-- A replay of a filter that is searched by a tag delivers the matches that have a value which no other
tag shadows, so all of them just if every match has one. -/
theorem served_of_tag {s : Store} (hs : s.Built Event.FromJson) {f : Filter} (hf : f.FromJson)
    {name : UInt8} {values : ValueSet} (hprimary : f.primaryField = .tag name values) (watermark : Nat)
    (hlatest : s.view.latestSeq ≤ watermark)
    (hlimit : (f.matchesIn s.view watermark).length ≤ f.limit.toNat) (who : Recipient) (cap : UInt64)
    (logScans : Bool) (clocks : Nat → Clock) :
    let served := (start ⟨⟨who, ⟨[f]⟩⟩, watermark⟩ cap logScans).serve s.view clocks 0
    let isClear := fun e : Event => ∃ value ∈ values, ⟨name, value⟩ ∈ e.tags
      ∧ ¬ s.view.Shadows ⟨name, value⟩ e.createdAt f.upTo
    served.2 = .ok true
      ∧ (∀ seq, seq ∈ served.1.flatten ↔
        ∃ e, s.view.event? seq = some e ∧ f.accepts e = true ∧ isClear e)
      ∧ ((∀ seq e, s.view.event? seq = some e → f.accepts e = true → seq ∈ served.1.flatten) ↔
        ∀ seq e, s.view.event? seq = some e → f.accepts e = true → isClear e) := by
  intro served isClear
  have hmem : ∀ seq, seq ∈ served.1.flatten ↔
      ∃ e, s.view.event? seq = some e ∧ f.accepts e = true ∧ isClear e := fun seq =>
    mem_serve_singleton.trans (mem_yield_of_tag hf hprimary hs.view.mirrors hlatest hlimit)
  refine ⟨(serve_spec sound_start s.view clocks 0).1, hmem, ?_⟩
  constructor
  · intro hall seq e he haccepts
    obtain ⟨e', he', -, hclear⟩ := (hmem seq).1 (hall seq e he haccepts)
    cases he.symm.trans he'
    exact hclear
  · intro hall seq e he haccepts
    exact (hmem seq).2 ⟨e, he, haccepts, hall seq e he haccepts⟩

theorem served_twoNotes :
    let served := (start ⟨⟨asker, ⟨[asking [0x61, 0x62]]⟩⟩, 2⟩ 0 false).serve
      twoNotes.view (fun _ => .exhausted) 0
    served.2 = .ok true ∧ 2 ∈ served.1.flatten := by
  intro served
  have hf : (asking [0x61, 0x62]).FromJson :=
    ⟨Filter.unbounded, .object [("#t", .array [.string "ab"])], rfl⟩
  obtain ⟨hend, hmem, -⟩ := served_of_tag built_twoNotes hf rfl 2 (by decide) (by decide +kernel)
    asker 0 false fun _ => .exhausted
  refine ⟨hend, (hmem 2).2 ⟨tagged 0x33 20 [0x61, 0x62], rfl, by decide +kernel, [0x61, 0x62], ?_, ?_, ?_⟩⟩
  · exact OrderedSet.mem_ofList.2 (List.mem_singleton_self _)
  · exact List.mem_singleton_self _
  · decide +kernel

/-- The note tagged `a` is a match that is never delivered. -/
theorem not_forall_served :
    ¬ ∀ (s : Store) (f : Filter) (name : UInt8) (values : ValueSet) (watermark : Nat) (who : Recipient)
      (cap : UInt64) (logScans : Bool) (clocks : Nat → Clock),
      s.Built Event.FromJson → f.FromJson → f.primaryField = .tag name values →
      Tag.holdsId name = false → s.view.latestSeq ≤ watermark →
      (f.matchesIn s.view watermark).length ≤ f.limit.toNat →
      ∀ seq e, s.view.event? seq = some e → f.accepts e = true →
        seq ∈ ((start ⟨⟨who, ⟨[f]⟩⟩, watermark⟩ cap logScans).serve s.view clocks 0).1.flatten := by
  intro h
  have hf : (asking [0x61]).FromJson :=
    ⟨Filter.unbounded, .object [("#t", .array [.string "a"])], rfl⟩
  have hlimit : ((asking [0x61]).matchesIn twoNotes.view 2).length ≤ (asking [0x61]).limit.toNat := by
    decide +kernel
  have hserved := h twoNotes (asking [0x61]) 0x74 (.ofList [[0x61]]) 2 asker 0
    false (fun _ => .unlimited) built_twoNotes hf rfl rfl (by decide) hlimit 1 (tagged 0x22 10 [0x61]) rfl
    (by decide +kernel)
  rw [mem_serve_singleton, mem_yield_of_tag hf rfl built_twoNotes.view.mirrors (by decide) hlimit]
    at hserved
  obtain ⟨e, he, -, value, hvalue, -, hshadows⟩ := hserved
  cases (Option.some.inj he : tagged 0x22 10 [0x61] = e)
  cases List.mem_singleton.1 hvalue
  exact hshadows (by decide +kernel)

end Replay

end EventRelay
