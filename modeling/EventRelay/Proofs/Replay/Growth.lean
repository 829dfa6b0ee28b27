import EventRelay.Proofs.Replay.Delivery
import EventRelay.Proofs.Scan.Steady
/-!
# Replays of a growing store

Events that are stored while a replay is on its way do not change its outlook: they are above its
watermark, and its scans do not come across foreign keys.  So a replay that waits between slices, while
events come in, delivers the answer that its group had when it was taken on.

Main statement: `outlook_eq_of_agree`.
-/

namespace EventRelay

/-- Whether the filters of a group have been read from JSON and scan no tag but `e` and `p`. -/
def FilterGroup.IsFixed (g : FilterGroup) : Prop :=
  ∀ f ∈ g.filters, f.FromJson ∧ f.primaryField.isFixed = true

section

variable {v v' : View} {w : Nat}

/-- The matches of a filter up to a watermark depend on the view up to it only. -/
theorem Filter.matchesIn_eq_of_agree (h : v.Agree v' w) (f : Filter) :
    f.matchesIn v' w = f.matchesIn v w := by
  rw [matchesIn, matchesIn]
  congr 1
  apply Stamp.eq_of_perm
  · exact Stamp.pairwise_sort _
  · exact Stamp.pairwise_sort _
  · rw [List.perm_ext_iff_of_nodup ((Stamp.perm_sort _).nodup_iff.2 nodup_stampsIn)
      ((Stamp.perm_sort _).nodup_iff.2 nodup_stampsIn)]
    intro x
    rw [Stamp.mem_sort, Stamp.mem_sort, mem_stampsIn, mem_stampsIn]
    refine and_congr_right fun hx => ?_
    rw [h.event?_eq _ hx]

theorem FilterGroup.answer_eq_of_agree (h : v.Agree v' w) (g : FilterGroup) :
    g.answer v' w = g.answer v w := by
  rw [answer, answer]
  congr 1
  apply List.flatMap_congr
  intro f _
  rw [Filter.answer, Filter.answer, Filter.matchesIn_eq_of_agree h]

/-- The scan of a filter that scans no tag but `e` and `p` comes across no foreign key. -/
theorem Scan.isExact_of_isFixed {f : Filter} (hf : f.FromJson)
    (hfixed : f.primaryField.isFixed = true) (cap : UInt64) (hv : v.Mirrors) (htags : v.HasIdTags) :
    (ofFilter f cap).IsExact v := by
  intro c hc
  obtain ⟨stem, hstem, rfl⟩ := List.mem_map.1 hc
  exact isExact_ofFilter hf.wellRead hfixed hv htags hstem

namespace Replay

variable {r : Replay}

/-- What is stored above the watermark of a replay does not change its outlook. -/
theorem outlook_eq_of_agree (hr : r.Sound) (hg : r.follower.sub.filters.IsFixed)
    (h : v.Agree v' r.follower.watermark) (hv : v.Mirrors) (htags : v.HasIdTags) (hv' : v'.Mirrors)
    (htags' : v'.HasIdTags) : r.outlook v' = r.outlook v := by
  cases hget : r.filters[r.filterIndex]? with
  | none => rw [outlook_of_none hget, outlook_of_none hget]
  | some f =>
    obtain ⟨hf, hfixed⟩ := hg f (List.mem_of_getElem? hget)
    obtain ⟨hs, hcont⟩ := hr.current_continues hget
    -- the scan may have begun against an earlier view, but it walks the stems it started with
    have hexact : (r.current f).IsExact v :=
      (hcont.isExact_iff v).2 (Scan.isExact_of_isFixed hf hfixed _ hv htags)
    have hexact' : (r.current f).IsExact v' :=
      (hcont.isExact_iff v').2 (Scan.isExact_of_isFixed hf hfixed _ hv' htags')
    have hshare : r.share v' f = r.share v f := by
      rw [share, share, hs.awaited_eq_of_agree hexact hexact' h]
    have hbehind : r.behind v' = r.behind v := by
      rw [behind, behind]
      apply List.flatMap_congr
      intro f' hf'
      obtain ⟨hf, hfixed⟩ := hg f' (List.mem_of_mem_drop hf')
      rw [yield_eq_answer hf hfixed hv' htags', yield_eq_answer hf hfixed hv htags, Filter.answer,
        Filter.answer, Filter.matchesIn_eq_of_agree h]
    rw [outlook_of_get hget, outlook_of_get hget, hshare, hbehind]

end Replay

end

end EventRelay
