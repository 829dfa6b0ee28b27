import EventRelay.Replay
import EventRelay.Proofs.FirstOccurrences
import EventRelay.Proofs.Scan.Agenda
/-!
# Running the scan of a replay

A run passes a beginning of what is awaited of its scan to the tally and leaves the rest, wherever it
stops; it is complete only when nothing is awaited or the limit is reached.

Main statement: `ran` (what a run comes to, whatever the clock says and whatever reads fail).
-/

namespace EventRelay

namespace Tally

/-- The lists of a tally name no seq twice, and what the current filter has found has been sent. -/
structure Sound (t : Tally) : Prop where
  nodup_sent : t.sent.Nodup
  nodup_found : t.found.Nodup
  found_subset : t.found ⊆ t.sent

/-- Whether a tally has become another by noting some seqs, in order. -/
structure Notes (t t' : Tally) (seqs : List Nat) : Prop where
  sent : t'.sent.reverse = (t.sent.reverse ++ seqs).eraseDups
  found : t'.found.reverse = (t.found.reverse ++ seqs).eraseDups

theorem reverse_note {seq : Nat} {l : List Nat} (h : l.Nodup) :
    (note seq l).reverse = (l.reverse ++ [seq]).eraseDups := by
  rw [note]
  split
  · rename_i hseq
    rw [eraseDups_append_of_subset (by simpa using hseq), eraseDups_of_nodup (List.nodup_reverse.2 h)]
  · rename_i hseq
    rw [eraseDups_append_eq, eraseDups_of_nodup (List.nodup_reverse.2 h)]
    simp [hseq, List.eraseDups_cons]

theorem Sound.notes_nil {t t' : Tally} (h : t.Sound) (hsent : t'.sent = t.sent)
    (hfound : t'.found = t.found) : t.Notes t' [] where
  sent := by rw [hsent, List.append_nil, eraseDups_of_nodup (List.nodup_reverse.2 h.nodup_sent)]
  found := by rw [hfound, List.append_nil, eraseDups_of_nodup (List.nodup_reverse.2 h.nodup_found)]

theorem Notes.append {a b c : Tally} {l m : List Nat} (h : a.Notes b l) (h' : b.Notes c m) :
    a.Notes c (l ++ m) where
  sent := by rw [h'.sent, h.sent, eraseDups_eraseDups_append, List.append_assoc]
  found := by rw [h'.found, h.found, eraseDups_eraseDups_append, List.append_assoc]

/-- A tally that has noted more is sound again. -/
theorem Notes.sound {t t' : Tally} {l : List Nat} (h : t.Notes t' l) (ht : t.Sound) : t'.Sound where
  nodup_sent := List.nodup_reverse.1 (h.sent ▸ nodup_eraseDups _)
  nodup_found := List.nodup_reverse.1 (h.found ▸ nodup_eraseDups _)
  found_subset := by
    intro seq hseq
    rw [← List.mem_reverse, h.found, List.mem_eraseDups, List.mem_append, List.mem_reverse] at hseq
    rw [← List.mem_reverse, h.sent, List.mem_eraseDups, List.mem_append, List.mem_reverse]
    exact hseq.imp_left fun hmem => ht.found_subset hmem

end Tally

namespace Scan

/-- How a run goes on from what its first step has come to. -/
def carryOn {σ : Type} (control : Control σ) (v : View) (s : Scan) (a : σ) (reports : List CorruptRow) :
    Reading Advance → Run σ
  | ⟨.finished, f, found⟩ => ⟨s, .ok true, a, f, reports ++ found⟩
  | ⟨.failed s e, f, found⟩ => ⟨s, .error e, a, f, reports ++ found⟩
  | ⟨.seeded s, f, found⟩ => run control v s f a (reports ++ found)
  | ⟨.judged s seq accepted, f, found⟩ =>
    if accepted then
      match control.onMatch a seq with
      | (a, true) => ⟨s, .ok true, a, f, reports ++ found⟩
      | (a, false) => run control v s f a (reports ++ found)
    else run control v s f a (reports ++ found)

theorem run_eq_carryOn {σ : Type} {control : Control σ} {v : View} {s : Scan} {f : Faults} {a a' : σ}
    {reports : List CorruptRow} (hpause : control.pause a (s.work + 1) = (a', false)) :
    run control v s f a reports = carryOn control v { s with work := s.work + 1 } a' reports
      (({ s with work := s.work + 1 } : Scan).advance v f) := by
  rw [run]
  simp only [hpause]
  split
  all_goals
    rename_i heq
    rw [heq]
    rfl

end Scan

namespace Replay

/-- What a run of a scan comes to, under the control of a replay with this watermark and a filter with
this limit. -/
structure Ran (v : View) (watermark limit : Nat) (s : Scan) (t : Tally) (run : Scan.Run Tally) :
    Prop where
  consistent : run.scan.Consistent
  continues : run.scan.Continues s
  passed : ∃ seqs, s.awaited v watermark = seqs ++ run.scan.awaited v watermark
    ∧ t.Notes run.state seqs
  length_found_le : run.state.found.length ≤ limit
  /-- A run is complete when nothing is left or the limit is reached. -/
  complete : run.outcome = .ok true →
    run.scan.awaited v watermark = [] ∨ run.state.found.length = limit
  incomplete : run.outcome ≠ .ok true → run.state.found.length < limit

/-- A look at the clock notes nothing. -/
theorem pause_notes {r : Replay} {clock : Clock} {limit : UInt64} {t t' : Tally} {work : Nat} {b : Bool}
    (ht : t.Sound) (hlimit : t.found.length < limit.toNat)
    (h : (r.control clock limit).pause t work = (t', b)) :
    t.Notes t' [] ∧ t'.found.length < limit.toNat := by
  simp only [control] at h
  split at h
  · cases h
    exact ⟨ht.notes_nil rfl rfl, hlimit⟩
  · cases h
    exact ⟨ht.notes_nil rfl rfl, hlimit⟩

/-- Told of a match, a replay notes it unless it is above the watermark, and ends the scan when the
limit is reached. -/
theorem onMatch_spec {r : Replay} {clock : Clock} {limit : UInt64} {t t' : Tally} {seq : Nat} {b : Bool}
    (ht : t.Sound) (hlimit : t.found.length < limit.toNat)
    (h : (r.control clock limit).onMatch t seq = (t', b)) :
    t.Notes t' (if seq ≤ r.follower.watermark then [seq] else [])
      ∧ (b = true → t'.found.length = limit.toNat)
      ∧ (b = false → t'.found.length < limit.toNat) := by
  simp only [control] at h
  split at h
  · rename_i hseq
    cases h
    rw [if_neg (Nat.not_le.2 hseq)]
    exact ⟨ht.notes_nil rfl rfl, nofun, fun _ => hlimit⟩
  · rename_i hseq
    cases h
    rw [if_pos (Nat.not_lt.1 hseq)]
    have hlen : (Tally.note seq t.found).length ≤ t.found.length + 1 := by
      rw [Tally.note]
      split
      · exact Nat.le_succ _
      · exact Nat.le_refl _
    refine ⟨⟨Tally.reverse_note ht.nodup_sent, Tally.reverse_note ht.nodup_found⟩, ?_, ?_⟩
    · intro hb
      have hle := of_decide_eq_true hb
      show (Tally.note seq t.found).length = limit.toNat
      omega
    · intro hb
      exact Nat.not_le.1 (of_decide_eq_false hb)

/-- A run that goes on behind the first step of a scan is one of the scan. -/
theorem Ran.behind {v : View} {w limit : Nat} {s s' : Scan} {t t' : Tally} {run : Scan.Run Tally}
    {seqs : List Nat} (hcont : s'.Continues s) (hawaited : s.awaited v w = seqs ++ s'.awaited v w)
    (hnotes : t.Notes t' seqs) (h : Ran v w limit s' t' run) : Ran v w limit s t run := by
  obtain ⟨more, hmore, hnotes'⟩ := h.passed
  refine { h with continues := h.continues.trans hcont, passed := ⟨seqs ++ more, ?_, ?_⟩ }
  · rw [hawaited, hmore, List.append_assoc]
  · exact hnotes.append hnotes'

theorem ran {r : Replay} {clock : Clock} {limit : UInt64} {v : View} {s : Scan} {f : Faults} {t : Tally}
    {reports : List CorruptRow} (hs : s.Consistent) (ht : t.Sound)
    (hlimit : t.found.length < limit.toNat) :
    Ran v r.follower.watermark limit.toNat s t (s.run (r.control clock limit) v f t reports) := by
  fun_induction Scan.run (r.control clock limit) v s f t reports with
  | case1 s f t reports s' t' hpause =>
    obtain ⟨hnotes, hlt⟩ := pause_notes ht hlimit hpause
    exact ⟨hs.withWork _, ⟨rfl, rfl⟩, ⟨[], rfl, hnotes⟩, Nat.le_of_lt hlt, (fun h => by cases h),
      fun _ => hlt⟩
  | case2 s f t reports s' t' hpause f' found hadv =>
    obtain ⟨hnotes, hlt⟩ := pause_notes ht hlimit hpause
    cases hs.progress_of_advance hadv with
    | finished hagenda =>
      refine ⟨hs.withWork _, ⟨rfl, rfl⟩, ⟨[], rfl, hnotes⟩, Nat.le_of_lt hlt, fun _ => .inl ?_,
        fun h => absurd rfl h⟩
      -- nothing was left on the agenda, so nothing was awaited
      rw [Scan.awaited, hagenda]
      rfl
  | case3 s f t reports s' t' hpause s'' e f' found hadv =>
    obtain ⟨hnotes, hlt⟩ := pause_notes ht hlimit hpause
    cases hs.progress_of_advance hadv with
    | failed hs'' hcont hagenda =>
      exact ⟨hs'', hcont, ⟨[], (hcont.awaited_eq hagenda).symm, hnotes⟩, Nat.le_of_lt hlt,
        (fun h => by cases h), fun _ => hlt⟩
  | case4 s f t reports s' t' hpause s'' f' found hadv ih =>
    obtain ⟨hnotes, hlt⟩ := pause_notes ht hlimit hpause
    cases hs.progress_of_advance hadv with
    | seeded hs'' hcont hagenda =>
      have hrest := ih hs'' (hnotes.sound ht) hlt
      have hawaited : s.awaited v r.follower.watermark = [] ++ s''.awaited v r.follower.watermark :=
        (hcont.awaited_eq hagenda).symm
      exact hrest.behind hcont hawaited hnotes
  | case5 s f t reports s' t' hpause s'' seq f' found t'' hmatch hadv =>
    obtain ⟨hnotes, hlt⟩ := pause_notes ht hlimit hpause
    cases hs.progress_of_advance hadv with
    | judged hs'' hcont hagenda haccepted =>
      have hawaited := Scan.awaited_of_judged (w := r.follower.watermark) hcont hagenda
      -- the match ends the run, and only the limit makes it do so
      obtain ⟨hnote, hend, -⟩ := onMatch_spec (hnotes.sound ht) hlt hmatch
      rw [← haccepted, if_pos rfl] at hawaited
      refine ⟨hs'', hcont, ⟨_, hawaited, hnotes.append hnote⟩, Nat.le_of_eq (hend rfl),
        fun _ => .inr (hend rfl), fun h => absurd rfl h⟩
  | case6 s f t reports s' t' hpause s'' seq f' found t'' hmatch hadv ih =>
    obtain ⟨hnotes, hlt⟩ := pause_notes ht hlimit hpause
    cases hs.progress_of_advance hadv with
    | judged hs'' hcont hagenda haccepted =>
      have hawaited := Scan.awaited_of_judged (w := r.follower.watermark) hcont hagenda
      obtain ⟨hnote, -, hgo⟩ := onMatch_spec (hnotes.sound ht) hlt hmatch
      rw [← haccepted, if_pos rfl] at hawaited
      have hrest := ih hs'' (hnote.sound (hnotes.sound ht)) (hgo rfl)
      exact hrest.behind hcont hawaited (hnotes.append hnote)
  | case7 s f t reports s' t' hpause s'' seq accepted f' found hadv hrejected ih =>
    obtain ⟨hnotes, hlt⟩ := pause_notes ht hlimit hpause
    cases hs.progress_of_advance hadv with
    | judged hs'' hcont hagenda haccepted =>
      have hawaited := Scan.awaited_of_judged (w := r.follower.watermark) hcont hagenda
      -- what is rejected was not awaited
      rw [← haccepted, if_neg hrejected] at hawaited
      have hrest := ih hs'' (hnotes.sound ht) hlt
      exact hrest.behind hcont hawaited hnotes

end Replay

end EventRelay
