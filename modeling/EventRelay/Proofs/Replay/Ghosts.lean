import EventRelay.Proofs.Replay.Account
import EventRelay.Proofs.Scan.Reads
/-!
# Seqs without an event

Between two slices of a replay events may be deleted, and rows may be damaged.  What a slice delivers
can still be read in the view of that slice, as long as every filter of the group reads its matches.  A
filter that leaves a match to the index delivers the seq also of an event that is gone: a candidate that
waits in the buffer when the event is deleted, or an entry whose row cannot be read.

Main statements: `Sound.resolves_slices` and `resolve_iff`, which says for scans and for replays just
when all that is passed on can be read.
-/

namespace EventRelay

namespace Replay

open Scan (Passed Resolve)

/-- Gives a replay one slice after the other: what they deliver. -/
def slices (r : Replay) : List Visit → List Passed
  | [] => []
  | x :: rest =>
    let slice := r.process x.view x.clock x.faults []
    ⟨x.view, r.deliveredSince slice.replay⟩ :: slice.replay.slices rest

variable {r : Replay}

/-- Whatever views the slices meet, a replay whose filters read their matches delivers only events that
one of its filters accepts and that the view of the slice holds. -/
theorem Sound.resolves_slices (hr : r.Sound)
    (hreads : ∀ f ∈ r.filters, f.limit = 0 ∨ (Scan.ofFilter f r.authorKindCap).Reads) (visits : List Visit) :
    ∀ x ∈ r.slices visits, ∀ seq ∈ x.seqs,
      ∃ e, x.view.event? seq = some e ∧ ∃ f ∈ r.filters, f.accepts e = true := by
  induction visits generalizing r with
  | nil => exact nofun
  | cons visit rest ih =>
    have hserved : Served visit.view r (r.process visit.view visit.clock visit.faults []) := served hr
    intro x hx seq hseq
    rcases List.mem_cons.1 hx with rfl | hx
    · -- what a slice delivers is awaited of a scan that goes on with the scan of its filter
      obtain ⟨f, hf, hlimit, s, hs, hcont, hawaited⟩ := hserved.exists_awaiting hr hseq
      have hscan : s.Reads := hcont.reads ((hreads f hf).resolve_left hlimit)
      obtain ⟨e, he, haccepts⟩ := hs.resolves hscan (Scan.mem_hits_of_mem_awaited hawaited)
      have hfilter : s.filter = f := hcont.1
      exact ⟨e, he, f, hf, hfilter ▸ haccepts⟩
    · have hfilters : (r.process visit.view visit.clock visit.faults []).replay.filters = r.filters := by
        rw [filters, filters, hserved.follower_eq]
      rw [← hfilters, ← hserved.cap_eq] at hreads
      rw [← hfilters]
      exact ih hserved.sound hreads x hx seq hseq

/-- A filter that does not read its matches delivers what the index lists. -/
theorem exists_ghost {group : FilterGroup} {cap : UInt64} {f : Filter} (hf : f ∈ group.filters)
    (hjson : f.FromJson) (hlimit : f.limit ≠ 0) (hnot : ¬ (Scan.ofFilter f cap).Reads) (who : Recipient)
    (logScans : Bool) :
    ∃ v, Store.History [v] ∧ (∀ seq, v.event? seq = none) ∧ ∃ x ∈
      (start ⟨⟨who, group⟩, 1⟩ cap logScans).slices [.undisturbed v], x.view = v ∧ 1 ∈ x.seqs := by
  obtain ⟨v, hhistory, hnone, hawaited, hone⟩ := Scan.exists_unread hjson hnot
  refine ⟨v, hhistory, hnone, _, List.mem_singleton_self _, rfl, ?_⟩
  have hserved : Served v (start ⟨⟨who, group⟩, 1⟩ cap logScans)
      ((start ⟨⟨who, group⟩, 1⟩ cap logScans).process v .unlimited .none []) := served sound_start
  -- nothing has been delivered at the start
  have hdelivered : (start ⟨⟨who, group⟩, 1⟩ cap logScans).deliveredSince
      ((start ⟨⟨who, group⟩, 1⟩ cap logScans).process v .unlimited .none []).replay
      = (start ⟨⟨who, group⟩, 1⟩ cap logScans).outlook v := by
    rw [← hserved.delivered_eq outcome_unlimited, hserved.delivered_append]
    rfl
  show 1 ∈ (start ⟨⟨who, group⟩, 1⟩ cap logScans).deliveredSince
    ((start ⟨⟨who, group⟩, 1⟩ cap logScans).process v .unlimited .none []).replay
  rw [hdelivered, outlook_start, List.mem_eraseDups]
  refine List.mem_flatMap.2 ⟨f, hf, ?_⟩
  show 1 ∈ ((Scan.ofFilter f cap).awaited v 1).eraseDups.take f.limit.toNat
  -- the index lists one seq, so the limit leaves room for it
  obtain ⟨n, hn⟩ : ∃ n, f.limit.toNat = n + 1 :=
    Nat.exists_eq_succ_of_ne_zero fun hzero => hlimit (UInt64.toNat_inj.1 hzero)
  cases hseqs : ((Scan.ofFilter f cap).awaited v 1).eraseDups with
  | nil =>
    rw [← List.mem_eraseDups, hseqs] at hawaited
    cases hawaited
  | cons seq rest =>
    have hseq : seq = 1 := hone seq (List.mem_eraseDups.1 (hseqs ▸ List.mem_cons_self))
    rw [hn, hseq, List.take_succ_cons]
    exact List.mem_cons_self

/-- All that the calls of a scan pass on can be read in the view of the call, whatever becomes of the store
between them, just if its filter reads its matches; for the slices of a replay, just if each of its filters
does or has the limit zero.  A scan has no limit. -/
theorem resolve_iff {f : Filter} {group : FilterGroup} (hf : f.FromJson)
    (hgroup : ∀ g ∈ group.filters, g.FromJson) (cap : UInt64) :
    ((∀ cs, Store.History (cs.map Scan.Call.view) → Resolve ((Scan.ofFilter f cap).calls cs)) ↔
      f.Reads cap)
    ∧ ((∀ who watermark logScans visits, Store.History (visits.map Visit.view) →
      Resolve ((start ⟨⟨who, group⟩, watermark⟩ cap logScans).slices visits)) ↔
      ∀ g ∈ group.filters, g.limit = 0 ∨ g.Reads cap) := by
  refine ⟨Scan.forall_resolve_iff hf, fun h g hg => ?_, ?_⟩
  · by_contra hnot
    rw [not_or, ← Scan.reads_ofFilter_iff (hgroup g hg)] at hnot
    obtain ⟨v, hhistory, hnone, x, hx, rfl, hseq⟩ :=
      exists_ghost hg (hgroup g hg) hnot.1 hnot.2 asker false
    have hread := h asker 1 false [.undisturbed x.view] hhistory x hx 1 hseq
    rw [hnone] at hread
    cases hread
  · intro hreads who watermark logScans visits _ x hx seq hseq
    have hscans : ∀ g ∈ (start ⟨⟨who, group⟩, watermark⟩ cap logScans).filters,
        g.limit = 0 ∨ (Scan.ofFilter g cap).Reads := fun g hg =>
      (hreads g hg).imp_right (Scan.reads_ofFilter_iff (hgroup g hg)).2
    obtain ⟨e, he, -⟩ := sound_start.resolves_slices hscans visits x hx seq hseq
    rw [he]
    rfl

/-- Somebody asks for notes. -/
def noteFilter : Filter := { Filter.unrestricted with kinds := some (.ofList [1]), indexOnly := true }

/-- Somebody asks for notes tagged `a`. -/
def taggedFilter : Filter :=
  { Filter.unrestricted with kinds := some (.ofList [1]), tags := [(0x74, .ofList [[0x61]])] }

theorem fromJson_noteFilter : noteFilter.FromJson :=
  ⟨Filter.unbounded, .object [("kinds", .array [.number (.integer false 1)])], rfl⟩

theorem fromJson_taggedFilter : taggedFilter.FromJson :=
  ⟨Filter.unbounded, .object [("kinds", .array [.number (.integer false 1)]),
    ("#t", .array [.string "a"])], rfl⟩

/-- A filter of the kind alone does not read its matches, one of two fields does. -/
theorem resolve_taggedFilter :
    (¬ ∀ cs, Store.History (cs.map Scan.Call.view) → Resolve ((Scan.ofFilter noteFilter 20).calls cs))
    ∧ ∀ who watermark logScans visits, Store.History (visits.map Visit.view) →
      Resolve ((start ⟨⟨who, ⟨[taggedFilter]⟩⟩, watermark⟩ 20 logScans).slices visits) := by
  have hgroup : ∀ g ∈ [taggedFilter], g.FromJson := List.forall_mem_singleton.2 fromJson_taggedFilter
  obtain ⟨hscan, hreplay⟩ := @resolve_iff _ ⟨[taggedFilter]⟩ fromJson_noteFilter hgroup 20
  refine ⟨fun h => ?_, hreplay.2 (List.forall_mem_singleton.2 (.inr fun hindex => ?_))⟩
  · have hrejects := hscan.1 h (by decide +kernel) (tagged 0x22 10 [0x61])
    exact absurd hrejects (by decide +kernel)
  · exact absurd hindex (by decide +kernel)

/-- A store with one note. -/
def loneNote : Store := .memory (MemoryStore.empty.insert (tagged 0x22 10 [0x61]))

/-- The note has been deleted. -/
def noNote : Store := (loneNote.delete? 1).getD loneNote

/-- A call that pauses when the note waits in the buffer. -/
def pausingCall : Scan.Call := ⟨loneNote.view, fun _ => false, ⟨fun polls _ => 1 < polls.length, .none⟩⟩

/-- A call that meets the store without the note. -/
def resumingCall : Scan.Call := ⟨noNote.view, fun _ => false, .undisturbed⟩

/-- The second call passes on the note that is gone. -/
theorem not_forall_resolve :
    ¬ ∀ (f : Filter) (cap : UInt64) (cs : List Scan.Call), f.FromJson →
      Store.History (cs.map Scan.Call.view) → Resolve ((Scan.ofFilter f cap).calls cs) := by
  intro h
  have hseen : Store.History ([pausingCall, resumingCall].map Scan.Call.view) := by
    have hstored : Store.Later (.memory .empty) loneNote :=
      Store.Later.refl.insert (rfl : Store.insertWithText _ (tagged 0x22 10 [0x61]) "" = _)
    have hdeleted : Store.Later loneNote noNote :=
      Store.Later.refl.delete (rfl : loneNote.delete? 1 = _)
    exact ⟨_, .inl rfl, .cons hstored (.cons hdeleted .nil)⟩
  let first := (Scan.ofFilter noteFilter 20).call pausingCall.ends loneNote.view [] pausingCall.attempt
  let paused := first.scan
  let resumed := paused.call resumingCall.ends noNote.view [] .undisturbed
  have hsecond : ⟨noNote.view, resumed.state.told⟩
      ∈ (Scan.ofFilter noteFilter 20).calls [pausingCall, resumingCall] :=
    List.mem_cons_of_mem _ (List.mem_singleton_self _)
  have hpaused : paused.Consistent := (Scan.told_call Scan.consistent_ofPlan _).consistent
  have hwaiting : (⟨10, 1⟩ : Stamp) ∈ paused.agenda noNote.view := Stamp.mem_sort.2 (by decide +kernel)
  have hverdict : paused.verdict noNote.view ⟨10, 1⟩ = true := by decide +kernel
  have htold : 1 ∈ resumed.state.told := by
    rw [(Scan.told_call hpaused _).complete Scan.outcome_undisturbed]
    exact Scan.prospect_never ▸ List.mem_map.2 ⟨_, List.mem_filter.2 ⟨hwaiting, hverdict⟩, rfl⟩
  have hresolves := h noteFilter 20 _ fromJson_noteFilter hseen _ hsecond 1 htold
  exact absurd hresolves (by decide +kernel)

end Replay

end EventRelay
