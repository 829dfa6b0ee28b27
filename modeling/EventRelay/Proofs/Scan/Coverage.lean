import EventRelay.Proofs.Replay.Answer
import EventRelay.Proofs.Scan.Agenda
import EventRelay.Proofs.Scan.Plans
import EventRelay.Proofs.Scan.Stretch
/-!
# What a scan finds

Before its first step a scan has the events on its agenda that have a stem of the plan, fit the time
range and are not hidden behind a foreign key.  Where no foreign key begins with a stem, what it awaits
are the matches of its filter, all of them and in the order of delivery, some more than once.

Main statements: `accepts_owned` (which events the cursors of a plan find), `mem_agenda_ofPlan`,
`isExact_ofFilter` and `eraseDups_awaited_ofFilter`.
-/

namespace EventRelay

/-- Whether the values of the tags `e` and `p` of all events of a view are identifiers. -/
def View.HasIdTags (v : View) : Prop := ∀ seq e, v.event? seq = some e → e.HasIdTags

theorem View.Built.hasIdTags {v : View} (h : v.Built Event.FromJson) : v.HasIdTags :=
  fun _ _ he => (h.admits_of_event? he).hasIdTags

namespace View

/-- The entries of a stem are those of the events that have it. -/
theorem Mirrors.mem_get_make_iff {v : View} (hv : v.Mirrors) {k : IndexKind} {stem : Bytes}
    {time : UInt64} {seq : Nat} :
    ⟨IndexKey.make stem time, seq⟩ ∈ v.indices.get k ↔
      ∃ e, v.event? seq = some e ∧ stem ∈ e.stems k ∧ time = e.createdAt := by
  rw [hv.mem_get_iff]
  refine exists_congr fun e => and_congr_right fun _ => ?_
  rw [Event.mem_indexEntries_iff]
  constructor
  · rintro ⟨other, hother, hkey⟩
    have htime : time = e.createdAt := by
      have := congrArg IndexKey.time? hkey
      simpa using this
    rw [htime] at hkey
    exact ⟨List.append_cancel_right hkey ▸ hother, htime⟩
  · rintro ⟨hstem, rfl⟩
    exact ⟨stem, hstem, rfl⟩

end View

namespace Scan

/-! ### What the cursors own -/

/-- Whether an entry that an event has in the index of a scan belongs to one of the scan's cursors. -/
def Owns (s : Scan) (e : Event) : Prop :=
  ∃ key, (s.index, key) ∈ e.indexEntries ∧ ∃ c ∈ s.cursors, c.owns key = true

/-- A cursor of a new scan owns an event just if its stem is one of the event. -/
theorem owns_ofPlan_iff {f : Filter} {p : Plan} {e : Event} :
    (ofPlan f p).Owns e ↔ ∃ stem ∈ p.stems, stem ∈ e.stems p.index := by
  constructor
  · rintro ⟨key, hentry, c, hc, howns⟩
    obtain ⟨stem, hstem, rfl⟩ := List.mem_map.1 hc
    obtain ⟨other, hother, rfl⟩ := Event.mem_indexEntries_iff.1 hentry
    cases IndexKey.ownedBy_make_iff.1 howns
    exact ⟨_, hstem, hother⟩
  · rintro ⟨stem, hstem, hother⟩
    refine ⟨IndexKey.make stem e.createdAt, Event.mem_indexEntries_iff.2 ⟨stem, hother, rfl⟩, ?_⟩
    exact ⟨Cursor.start stem f.upTo, List.mem_map_of_mem hstem, IndexKey.ownedBy_make_iff.2 rfl⟩

/-- The plan of a filter misses no event that the filter accepts; and where it lets the index decide, the
filter accepts every event that the cursors own and whose time fits. -/
theorem accepts_owned {f : Filter} (hf : f.FromJson) (cap : UInt64) (e : Event) :
    (f.accepts e = true → (ofFilter f cap).Owns e)
    ∧ ((ofFilter f cap).indexOnly = true → (ofFilter f cap).Owns e →
      f.since ≤ e.createdAt → e.createdAt ≤ f.upTo → f.accepts e = true) := by
  have hp := Plan.isPlan_ofFilter f cap
  constructor
  · intro haccepts
    exact owns_ofPlan_iff.2 (hp.exists_stem haccepts)
  · intro hindex howns hsince hupTo
    obtain ⟨stem, hstem, hother⟩ := owns_ofPlan_iff.1 howns
    have hfits : f.matchesTime e.createdAt = true := by
      rw [Filter.matchesTime, Bool.and_eq_true, decide_eq_true_eq, decide_eq_true_eq]
      exact ⟨hsince, hupTo⟩
    exact hp.accepts_of_stem hf.wellRead hindex hstem hother hfits

/-- Somebody asks for the notes of an author. -/
def notesOf (author : Id) : Filter :=
  { Filter.unrestricted with
    authors := some (.ofList [author])
    kinds := some (.ofList [1])
    indexOnly := true }

/-- Where pairs of author and kind are searched the index decides that a note is accepted; where there are
too many pairs it does not, and an event of another kind is owned, too. -/
theorem accepts_owned_notesOf :
    let author : Id := ⟨List.replicate 32 0x11, List.length_replicate⟩
    let note : Event := ⟨author, author, 10, 1, none, []⟩
    let other : Event := ⟨author, author, 10, 7, none, []⟩
    (notesOf author).accepts note = true ∧ (ofFilter (notesOf author) 1).Owns note
      ∧ (ofFilter (notesOf author) 1).indexOnly = false ∧ (ofFilter (notesOf author) 1).Owns other
      ∧ (notesOf author).accepts other = false := by
  intro author note other
  have hf : (notesOf author).FromJson :=
    ⟨Filter.unbounded, .object [("authors", .array [.string
      "1111111111111111111111111111111111111111111111111111111111111111"]),
      ("kinds", .array [.number (.integer false 1)])], rfl⟩
  have hpair : (ofFilter (notesOf author) 2).Owns note :=
    owns_ofPlan_iff.2 ⟨Stem.ofAuthorKind author 1, by decide +kernel, List.mem_singleton_self _⟩
  have haccepts : (notesOf author).accepts note = true :=
    (accepts_owned hf 2 note).2 (by decide +kernel) hpair (by decide) (by decide)
  refine ⟨haccepts, (accepts_owned hf 1 note).1 haccepts, by decide +kernel, ?_, by decide +kernel⟩
  exact owns_ofPlan_iff.2 ⟨Stem.ofAuthor author, by decide +kernel, List.mem_singleton_self _⟩

/-! ### What stands on the agenda -/

theorem mem_agenda_ofPlan {f : Filter} {p : Plan} {v : View} (hv : v.Mirrors) {x : Stamp} :
    x ∈ (ofPlan f p).agenda v ↔ ∃ stem ∈ p.stems, ∃ e, v.event? x.seq = some e
      ∧ stem ∈ e.stems p.index ∧ x.time = e.createdAt ∧ f.matchesTime e.createdAt = true
      ∧ v.IsClear p.index stem e.createdAt f.upTo := by
  have hagenda : x ∈ (ofPlan f p).agenda v ↔ ∃ stem ∈ p.stems,
      ∃ e ∈ (Cursor.start stem f.upTo).coming v p.index f.since, (Cursor.toCandidate 0 e).stamp = x := by
    rw [agenda, Stamp.mem_sort]
    simp only [List.mem_map, List.mem_append]
    constructor
    · rintro ⟨c, hc | hc, rfl⟩
      · exact absurd hc List.not_mem_nil
      · obtain ⟨i, c', hc', e, he, rfl⟩ := mem_coming.1 hc
        obtain ⟨stem, hstem, rfl⟩ := List.mem_map.1 (List.mem_of_getElem? hc')
        exact ⟨stem, hstem, e, he, rfl⟩
    · rintro ⟨stem, hstem, e, he, rfl⟩
      have hmem : Cursor.start stem f.upTo ∈ (ofPlan f p).cursors := List.mem_map_of_mem hstem
      obtain ⟨i, hi⟩ := List.getElem?_of_mem hmem
      exact ⟨Cursor.toCandidate i e, .inr (mem_coming.2 ⟨i, _, hi, e, he, rfl⟩), rfl⟩
  -- stem by stem: the entries of an event and the event stand for each other
  rw [hagenda]
  refine exists_congr fun stem => and_congr_right fun _ => ?_
  constructor
  · rintro ⟨⟨key, seq⟩, hcoming, rfl⟩
    obtain ⟨hmem, time, hkey, hsince, hupTo, hclear⟩ := Cursor.mem_coming_start.1 hcoming
    cases (hkey : key = _)
    obtain ⟨e, he, hstem, rfl⟩ := hv.mem_get_make_iff.1 hmem
    refine ⟨e, he, hstem, ?_, ?_, hclear⟩
    · show (IndexKey.time? (IndexKey.make stem e.createdAt)).getD 0 = e.createdAt
      rw [IndexKey.time?_make, Option.getD_some]
    · simp [Filter.matchesTime, hsince, hupTo]
  · rintro ⟨e, he, hstem, htime, hfits, hclear⟩
    rw [Filter.matchesTime, Bool.and_eq_true, decide_eq_true_eq, decide_eq_true_eq] at hfits
    refine ⟨⟨IndexKey.make stem e.createdAt, x.seq⟩, ?_, ?_⟩
    · apply Cursor.mem_coming_start.2
      exact ⟨hv.mem_get_make_iff.2 ⟨e, he, hstem, rfl⟩, _, rfl, hfits.1, hfits.2, hclear⟩
    · simp [Candidate.stamp, Cursor.toCandidate, ← htime]

/-- Whether a scan accepts a stored event with a stem of its plan: just if the filter does. -/
theorem verdict_ofPlan {f : Filter} {p : Plan} (hp : Plan.IsPlan f p) (hf : f.WellRead) {v : View}
    {x : Stamp} {e : Event} (he : v.event? x.seq = some e) (htime : x.time = e.createdAt)
    {stem : Bytes} (hstem : stem ∈ p.stems) (hstem' : stem ∈ e.stems p.index)
    (hfits : f.matchesTime e.createdAt = true) : (ofPlan f p).verdict v x = f.accepts e := by
  have hverdict : (ofPlan f p).verdict v x =
      if p.indexOnly then f.matchesTime x.time else (v.event? x.seq).any f.accepts := rfl
  rw [hverdict]
  split
  · rename_i hindex
    rw [htime, hfits, hp.accepts_of_stem hf hindex hstem hstem' hfits]
  · rw [he, Option.any_some]

/-- A scan awaits the matches of its filter that are not hidden behind a foreign key. -/
theorem mem_awaited_ofPlan {f : Filter} {p : Plan} (hp : Plan.IsPlan f p) (hf : f.WellRead) {v : View}
    (hv : v.Mirrors) {w seq : Nat} :
    seq ∈ (ofPlan f p).awaited v w ↔ seq ≤ w ∧ ∃ e, v.event? seq = some e ∧ f.accepts e = true
      ∧ ∃ stem ∈ p.stems, stem ∈ e.stems p.index ∧ v.IsClear p.index stem e.createdAt f.upTo := by
  simp only [awaited, List.mem_map, List.mem_filter, Bool.and_eq_true, decide_eq_true_eq,
    mem_agenda_ofPlan hv]
  constructor
  · rintro ⟨x, ⟨⟨stem, hstem, e, he, hstem', htime, hfits, hclear⟩, hseq, hverdict⟩, rfl⟩
    rw [verdict_ofPlan hp hf he htime hstem hstem' hfits] at hverdict
    exact ⟨hseq, e, he, hverdict, stem, hstem, hstem', hclear⟩
  · rintro ⟨hseq, e, he, haccepts, stem, hstem, hstem', hclear⟩
    have hfits := (Filter.accepts_iff.1 haccepts).2.1
    refine ⟨⟨e.createdAt, seq⟩, ⟨⟨stem, hstem, e, he, hstem', rfl, hfits, hclear⟩, hseq, ?_⟩, rfl⟩
    rw [verdict_ofPlan hp hf he rfl hstem hstem' hfits, haccepts]

/-- Where the values of the primary field have one size, no foreign key begins with a stem. -/
theorem isExact_ofFilter {f : Filter} (hf : f.WellRead) (hfixed : f.primaryField.isFixed = true)
    {cap : UInt64} {v : View} (hv : v.Mirrors) (htags : v.HasIdTags) {stem : Bytes}
    (hstem : stem ∈ (Plan.ofFilter f cap).stems) : v.IsExact (Plan.ofFilter f cap).index stem := by
  rintro ⟨key, seq⟩ hmem hbegins
  obtain ⟨e, he, hentry⟩ := hv.mem_get_iff.1 hmem
  obtain ⟨other, hother, hkey⟩ := Event.mem_indexEntries_iff.1 hentry
  cases (hkey : key = _)
  have hlen := (Plan.isPlan_ofFilter f cap).length_of_isPrefix hf hfixed (htags _ _ he) hstem hother
    hbegins
  apply IndexKey.ownedBy_of_isPrefix hbegins
  show (IndexKey.make other e.createdAt).length = stem.length + 8
  rw [IndexKey.make, List.length_append, Bytes.length_bigEndian, hlen]

/-- A scan awaits just the matches of its filter. -/
theorem eraseDups_awaited_ofFilter {f : Filter} (hf : f.WellRead)
    (hfixed : f.primaryField.isFixed = true) {cap : UInt64} {v : View} (hv : v.Mirrors)
    (htags : v.HasIdTags) {w : Nat} :
    ((ofFilter f cap).awaited v w).eraseDups = f.matchesIn v w := by
  have hp := Plan.isPlan_ofFilter f cap
  have hmem : ∀ x, x ∈ ((ofFilter f cap).agenda v).filter
      (fun x => decide (x.seq ≤ w) && (ofFilter f cap).verdict v x) ↔ x ∈ f.stampsIn v w := by
    intro x
    rw [List.mem_filter, Bool.and_eq_true, decide_eq_true_eq, Filter.mem_stampsIn, ofFilter,
      mem_agenda_ofPlan hv]
    constructor
    · rintro ⟨⟨stem, hstem, e, he, hstem', htime, hfits, -⟩, hseq, hverdict⟩
      rw [verdict_ofPlan hp hf he htime hstem hstem' hfits] at hverdict
      exact ⟨hseq, e, he, hverdict, htime⟩
    · rintro ⟨hseq, e, he, haccepts, htime⟩
      obtain ⟨stem, hstem, hstem'⟩ := hp.exists_stem haccepts
      -- an accepted event has a stem of the plan, and nothing hides its key
      have hfits := (Filter.accepts_iff.1 haccepts).2.1
      have hexact : v.IsExact (Plan.ofFilter f cap).index stem :=
        isExact_ofFilter hf hfixed hv htags hstem
      refine ⟨⟨stem, hstem, e, he, hstem', htime, hfits, hexact.isClear _ _⟩, hseq, ?_⟩
      rw [verdict_ofPlan hp hf he htime hstem hstem' hfits, haccepts]
  -- both are sorted without repetition, so it is enough that they have the same members
  rw [awaited, Filter.matchesIn, map_eraseDups]
  · congr 1
    apply Stamp.eq_of_perm
    · exact ((Stamp.pairwise_sort _).filter _).sublist (eraseDups_sublist _)
    · exact Stamp.pairwise_sort _
    · rw [List.perm_ext_iff_of_nodup (nodup_eraseDups _)
        ((Stamp.perm_sort _).nodup_iff.2 Filter.nodup_stampsIn)]
      intro x
      rw [List.mem_eraseDups, hmem, Stamp.mem_sort]
  · -- a seq stands for one event, and the event for its time
    intro x hx y hy hseq
    obtain ⟨-, e, he, -, hxtime⟩ := Filter.mem_stampsIn.1 ((hmem x).1 hx)
    obtain ⟨-, e', he', -, hytime⟩ := Filter.mem_stampsIn.1 ((hmem y).1 hy)
    rw [hseq, he'] at he
    cases he
    cases x
    cases y
    cases hseq
    cases hxtime.trans hytime.symm
    rfl

end Scan

end EventRelay
