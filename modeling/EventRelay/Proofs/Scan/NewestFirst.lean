import EventRelay.Proofs.Replay.Ghosts
import EventRelay.Proofs.Store.Dates
/-!
# Newest first

What a scan passes on stands in the order of delivery over its whole life, whatever the store looks like
at each call.  Nothing is passed on before every cursor is seeded, and from then on whatever has been
passed on comes before all of the agenda, in any view: it comes before what waits in the buffer, and the
first candidate of the buffer comes before all that the cursors can still bring.

Main statements: `InOrder.behind_step` (what a step keeps), `InOrder.run` and `newestFirst_calls`.
-/

namespace EventRelay

/-- Whether a view lists a seq under a stem of a plan and a time, in the index of the plan. -/
def View.Lists (v : View) (p : Plan) (x : Stamp) : Prop :=
  ∃ stem ∈ p.stems, ⟨IndexKey.make stem x.time, x.seq⟩ ∈ v.indices.get p.index

namespace Scan

variable {s s' : Scan} {v : View} {f : Faults} {p : Plan} {vs : List View} {passed : List Stamp}

/-! ### Seeding comes before judging -/

/-- Whether every cursor has brought its first batch. -/
def AllSeeded (s : Scan) : Prop := s.seeded = s.cursors.length

/-- What the outcome of a step tells of the seeding. -/
inductive Seeding (s : Scan) : Advance → Prop
  | finished : Seeding s .finished
  | failed {t : Scan} {e} : (s.AllSeeded → t.AllSeeded) → Seeding s (.failed t e)
  | seeded {t : Scan} : ¬ s.AllSeeded → Seeding s (.seeded t)
  | judged {t : Scan} {seq accepted} : t.AllSeeded → Seeding s (.judged t seq accepted)

theorem Consistent.seeding (hs : s.Consistent) (v : View) (f : Faults) :
    Seeding s (s.advance v f).outcome := by
  rw [advance]
  cases hc : s.cursors[s.seeded]? with
  | some c =>
    have hlt : s.seeded < s.cursors.length := (List.getElem?_eq_some_iff.1 hc).1
    simp only
    split
    · exact .failed id
    · exact .seeded (Nat.ne_of_lt hlt)
  | none =>
    have hall : s.AllSeeded := hs.seeded_eq hc
    simp only
    split
    · exact .finished
    · split
      · exact .failed id
      · split
        · exact .failed id
        · apply Seeding.judged
          show s.seeded = (s.cursors.modify _ _).length
          rw [List.length_modify]
          exact hall

/-! ### What stands on the agenda -/

/-- What a cursor will bring is listed under its stem. -/
theorem lists_of_mem_coming {x : Candidate} (hx : x ∈ s.coming v) : v.Lists s.plan x.stamp := by
  obtain ⟨i, c, hc, e, he, rfl⟩ := mem_coming.1 hx
  have hentry : (Cursor.toCandidate i e).entry c.stem = e :=
    Cursor.entry_toCandidate (Cursor.takes_of_mem_coming he)
  have hmem : e ∈ v.indices.get s.index := Cursor.mem_get_of_mem_ahead (Cursor.mem_ahead_of_mem_coming he)
  rw [← hentry] at hmem
  exact ⟨c.stem, List.mem_map_of_mem (List.mem_of_getElem? hc), hmem⟩

theorem mem_agenda {x : Stamp} :
    x ∈ s.agenda v ↔ (∃ y ∈ s.buffer, y.stamp = x) ∨ ∃ y ∈ s.coming v, y.stamp = x := by
  rw [agenda, Stamp.mem_sort, List.map_append, List.mem_append, List.mem_map, List.mem_map]

/-- What a scan that has passed on `passed` under the plan `p` keeps true, whose calls meet the views
`vs`. -/
structure InOrder (p : Plan) (vs : List View) (s : Scan) (passed : List Stamp) : Prop where
  consistent : s.Consistent
  plan_eq : s.plan = p
  passed_listed : ∀ x ∈ passed, ∃ v ∈ vs, v.Lists p x
  /-- Candidates come from the view of their batch, which may be an earlier one. -/
  buffer_listed : ∀ y ∈ s.buffer, ∃ v ∈ vs, v.Lists p y.stamp
  pairwise : passed.Pairwise fun x y => Stamp.comesFirst x y = true
  allSeeded : passed ≠ [] → s.AllSeeded
  before_buffer : ∀ x ∈ passed, ∀ y ∈ s.buffer, Stamp.comesFirst x y.stamp = true

namespace InOrder

theorem ofFilter {f : Filter} {cap : UInt64} :
    InOrder (Plan.ofFilter f cap) vs (Scan.ofFilter f cap) [] where
  consistent := consistent_ofPlan
  plan_eq := plan_ofFilter
  passed_listed := nofun
  buffer_listed := nofun
  pairwise := .nil
  allSeeded h := absurd rfl h
  before_buffer := nofun

theorem withWork (h : InOrder p vs s passed) (n : Nat) :
    InOrder p vs ({ s with work := n } : Scan) passed :=
  ⟨h.consistent.withWork n, h.plan_eq, h.passed_listed, h.buffer_listed, h.pairwise, h.allSeeded,
    h.before_buffer⟩

theorem agenda_listed (h : InOrder p vs s passed) (hv : v ∈ vs) {x : Stamp} (hx : x ∈ s.agenda v) :
    ∃ v ∈ vs, v.Lists p x := by
  rcases mem_agenda.1 hx with ⟨y, hy, rfl⟩ | ⟨y, hy, rfl⟩
  · exact h.buffer_listed y hy
  · exact ⟨v, hv, h.plan_eq ▸ lists_of_mem_coming hy⟩

/-- What has been passed on comes before the agenda, in whatever view. -/
theorem before_agenda (h : InOrder p vs s passed) {x y : Stamp} (hx : x ∈ passed) (hy : y ∈ s.agenda v) :
    Stamp.comesFirst x y = true := by
  have hall : s.AllSeeded := h.allSeeded (List.ne_nil_of_mem hx)
  cases hbuffer : s.buffer with
  | nil =>
    rw [h.consistent.agenda_eq_nil hall hbuffer] at hy
    cases hy
  | cons next rest =>
    rcases mem_agenda.1 hy with ⟨z, hz, rfl⟩ | ⟨z, hz, rfl⟩
    · exact h.before_buffer x hx z hz
    · -- the first candidate stands between the two
      obtain ⟨i, c, hc, e, he, rfl⟩ := mem_coming.1 hz
      have hnext : Stamp.comesFirst x next.stamp = true :=
        h.before_buffer x hx next (hbuffer ▸ List.mem_cons_self)
      exact Stamp.comesFirst_trans _ _ _ hnext (h.consistent.comesFirst hall hbuffer hc he)

/-- A step takes the front off the agenda and passes on some of it. -/
theorem behind_step (h : InOrder p vs s passed) (hv : v ∈ vs) (hs' : s'.Consistent)
    (hcont : s'.Continues s) {front more : List Stamp} (hagenda : s.agenda v = front ++ s'.agenda v)
    (hmore : more.Sublist front) (hall : passed ++ more ≠ [] → s'.AllSeeded) :
    InOrder p vs s' (passed ++ more) := by
  have hsub : ∀ x ∈ more, x ∈ s.agenda v := fun x hx =>
    hagenda ▸ List.mem_append_left _ (hmore.mem hx)
  have hleft : ∀ y ∈ s'.buffer, y.stamp ∈ s'.agenda v := fun y hy => mem_agenda.2 (.inl ⟨y, hy, rfl⟩)
  have hkept : ∀ y ∈ s'.buffer, y.stamp ∈ s.agenda v := fun y hy =>
    hagenda ▸ List.mem_append_right _ (hleft y hy)
  -- the agenda is sorted, so its front comes before all that the step leaves
  have hord : (s.agenda v).Pairwise fun x y => Stamp.comesFirst x y = true := Stamp.pairwise_sort _
  rw [hagenda, List.pairwise_append] at hord
  obtain ⟨hfront, -, hbetween⟩ := hord
  refine ⟨hs', hcont.2.trans h.plan_eq, ?_, fun y hy => h.agenda_listed hv (hkept y hy), ?_, hall, ?_⟩
  · intro x hx
    rcases List.mem_append.1 hx with hx | hx
    · exact h.passed_listed x hx
    · exact h.agenda_listed hv (hsub x hx)
  · rw [List.pairwise_append]
    exact ⟨h.pairwise, hfront.sublist hmore, fun x hx y hy => h.before_agenda hx (hsub y hy)⟩
  · intro x hx y hy
    rcases List.mem_append.1 hx with hx | hx
    · exact h.before_agenda hx (hkept y hy)
    · exact hbetween x (hmore.mem hx) _ (hleft y hy)

/-- A step that leaves the agenda as it is passes nothing on. -/
theorem behind_idle (h : InOrder p vs s passed) (hv : v ∈ vs) (hs' : s'.Consistent)
    (hcont : s'.Continues s) (hagenda : s'.agenda v = s.agenda v)
    (hall : passed ≠ [] → s'.AllSeeded) : InOrder p vs s' passed := by
  have hfront : s.agenda v = [] ++ s'.agenda v := hagenda.symm
  have hnew := h.behind_step hv hs' hcont hfront (.refl []) (by rwa [List.append_nil])
  rwa [List.append_nil] at hnew

/-! ### One step -/

theorem failed (h : InOrder p vs s passed) (hv : v ∈ vs) {e : ReadError}
    (hadv : (s.advance v f).outcome = .failed s' e) : InOrder p vs s' passed := by
  have hprogress := h.consistent.progress v f
  have hseeding := h.consistent.seeding v f
  rw [hadv] at hprogress hseeding
  cases hprogress with
  | failed hs' hcont hagenda =>
    cases hseeding with
    | failed hkeeps =>
      exact h.behind_idle hv hs' hcont hagenda fun hne => hkeeps (h.allSeeded hne)

theorem seeded (h : InOrder p vs s passed) (hv : v ∈ vs) (hadv : (s.advance v f).outcome = .seeded s') :
    InOrder p vs s' passed := by
  have hprogress := h.consistent.progress v f
  have hseeding := h.consistent.seeding v f
  rw [hadv] at hprogress hseeding
  cases hprogress with
  | seeded hs' hcont hagenda =>
    cases hseeding with
    | seeded hnot =>
      -- as long as cursors are to be seeded, nothing has been passed on
      exact h.behind_idle hv hs' hcont hagenda fun hne => absurd (h.allSeeded hne) hnot

/-- A candidate that leaves the buffer may be passed on or not. -/
theorem judged (h : InOrder p vs s passed) (hv : v ∈ vs) {seq : Nat} {accepted : Bool}
    (hadv : (s.advance v f).outcome = .judged s' seq accepted) :
    InOrder p vs s' passed ∧ ∃ x : Stamp, x.seq = seq ∧ InOrder p vs s' (passed ++ [x]) := by
  have hprogress := h.consistent.progress v f
  have hseeding := h.consistent.seeding v f
  rw [hadv] at hprogress hseeding
  cases hprogress with
  | @judged s' x accepted hs' hcont hagenda haccepted =>
    cases hseeding with
    | judged hall =>
      have hstep : ∀ {more : List Stamp}, more.Sublist [x] → InOrder p vs s' (passed ++ more) :=
        fun hmore => h.behind_step hv hs' hcont hagenda hmore fun _ => hall
      refine ⟨?_, x, rfl, hstep (.refl _)⟩
      have hnew := hstep (List.nil_sublist _)
      rwa [List.append_nil] at hnew

/-! ### Run after run -/

theorem nothing_more {told : List Nat} (h : InOrder p vs s passed) :
    ∃ more : List Stamp, told = told ++ more.map Stamp.seq ∧ InOrder p vs s (passed ++ more) := by
  refine ⟨[], (List.append_nil _).symm, ?_⟩
  rwa [List.append_nil]

/-- A run passes on what comes behind all that has been passed on. -/
theorem run {ends : List Nat → Bool} {pause : List Nat → List Nat → Bool} {a : Record}
    {reports : List CorruptRow} (h : InOrder p vs s passed) (hv : v ∈ vs) :
    ∃ more : List Stamp,
      (s.run (recorder ends pause) v f a reports).state.told = a.told ++ more.map Stamp.seq
      ∧ InOrder p vs (s.run (recorder ends pause) v f a reports).scan (passed ++ more) := by
  fun_induction Scan.run (recorder ends pause) v s f a reports generalizing passed with
  | case1 =>
    rename_i hpause
    cases congrArg Prod.fst hpause
    exact (h.withWork _).nothing_more
  | case2 =>
    rename_i hpause f' found hadv
    cases congrArg Prod.fst hpause
    exact (h.withWork _).nothing_more
  | case3 =>
    rename_i hpause s'' e f' found hadv
    cases congrArg Prod.fst hpause
    exact ((h.withWork _).failed hv (congrArg Reading.outcome hadv)).nothing_more
  | case4 =>
    rename_i hpause s'' f' found hadv ih
    cases congrArg Prod.fst hpause
    exact ih ((h.withWork _).seeded hv (congrArg Reading.outcome hadv))
  | case5 =>
    rename_i hpause s'' seq f' found a'' hmatch hadv
    cases congrArg Prod.fst hpause
    cases congrArg Prod.fst hmatch
    obtain ⟨-, x, rfl, hx⟩ := (h.withWork _).judged hv (congrArg Reading.outcome hadv)
    exact ⟨[x], rfl, hx⟩
  | case6 =>
    rename_i hpause s'' seq f' found a'' hmatch hadv ih
    cases congrArg Prod.fst hpause
    cases congrArg Prod.fst hmatch
    obtain ⟨-, x, rfl, hx⟩ := (h.withWork _).judged hv (congrArg Reading.outcome hadv)
    obtain ⟨more, htold, hmore⟩ := ih hx
    refine ⟨x :: more, ?_, ?_⟩
    · rw [htold, List.map_cons]
      exact List.append_assoc _ _ _
    · rwa [List.append_assoc] at hmore
  | case7 =>
    rename_i hpause s'' seq accepted f' found hadv hrejected ih
    cases congrArg Prod.fst hpause
    exact ih ((h.withWork _).judged hv (congrArg Reading.outcome hadv)).1

theorem call {c : Call} (h : InOrder p vs s passed) (hview : c.view ∈ vs) :
    ∃ more : List Stamp, (s.call c.ends c.view [] c.attempt).state.told = more.map Stamp.seq
      ∧ InOrder p vs (s.call c.ends c.view [] c.attempt).scan (passed ++ more) :=
  h.run hview

/-- Calls pass on, one after the other, what is listed and stands in the order of delivery. -/
theorem calls {cs : List Call} (h : InOrder p vs s passed) (hviews : ∀ c ∈ cs, c.view ∈ vs) :
    ∃ more : List Stamp, (s.calls cs).flatMap Passed.seqs = more.map Stamp.seq
      ∧ (passed ++ more).Pairwise (fun x y => Stamp.comesFirst x y = true)
      ∧ ∀ x ∈ more, ∃ v ∈ vs, v.Lists p x := by
  induction cs generalizing s passed with
  | nil =>
    refine ⟨[], rfl, ?_, nofun⟩
    rw [List.append_nil]
    exact h.pairwise
  | cons c rest ih =>
    obtain ⟨hview, hrest⟩ := List.forall_mem_cons.1 hviews
    obtain ⟨first, htold, hfirst⟩ := h.call hview
    obtain ⟨more, hseqs, hord, hlisted⟩ := ih hfirst hrest
    rw [List.append_assoc] at hord
    refine ⟨first ++ more, ?_, hord, ?_⟩
    · rw [Scan.calls, List.flatMap_cons, hseqs, List.map_append, htold]
    · intro x hx
      rcases List.mem_append.1 hx with hx | hx
      · exact hfirst.passed_listed x (List.mem_append_right _ hx)
      · exact hlisted x hx

end InOrder

/-- Whatever becomes of the store between the calls of a scan, and whenever they pause or fail: all that
they pass on is listed under the one time of its seq, and the calls together pass it on newest first,
at one time the greater seq first. -/
theorem newestFirst_calls (f : Filter) (cap : UInt64) {cs : List Call}
    (h : Store.History (cs.map Call.view)) : ∃ dates : Nat → UInt64,
      (∀ c ∈ cs, c.view.IsDated dates)
      ∧ (∀ seq ∈ ((ofFilter f cap).calls cs).flatMap Passed.seqs,
        ∃ c ∈ cs, c.view.Lists (Plan.ofFilter f cap) ⟨dates seq, seq⟩)
      ∧ (((ofFilter f cap).calls cs).flatMap Passed.seqs).Pairwise fun a b =>
        Stamp.comesFirst ⟨dates a, a⟩ ⟨dates b, b⟩ = true := by
  obtain ⟨dates, hdates⟩ := h.exists_dates
  have hviews : ∀ c ∈ cs, c.view ∈ cs.map Call.view := fun c hc => List.mem_map_of_mem hc
  have hstart : InOrder (Plan.ofFilter f cap) (cs.map Call.view) (ofFilter f cap) [] := .ofFilter
  obtain ⟨more, hseqs, hord, hlisted⟩ := hstart.calls hviews
  rw [List.nil_append] at hord
  -- the stamps of what is passed on carry the dates of the store
  have hdated : ∀ x ∈ more, x = ⟨dates x.seq, x.seq⟩ := by
    intro x hx
    obtain ⟨v, hv, stem, -, hentry⟩ := hlisted x hx
    have htime : x.time = dates x.seq := (hdates v hv).time_eq hentry
    rw [← htime]
  rw [hseqs]
  refine ⟨dates, fun c hc => hdates _ (hviews c hc), ?_, List.pairwise_map.2 ?_⟩
  · intro seq hseq
    obtain ⟨x, hx, rfl⟩ := List.mem_map.1 hseq
    obtain ⟨v, hv, hlists⟩ := hlisted x hx
    obtain ⟨c, hc, rfl⟩ := List.mem_map.1 hv
    rw [hdated x hx] at hlists
    exact ⟨c, hc, hlists⟩
  · refine hord.imp_of_mem fun hx hy hxy => ?_
    rw [hdated _ hx, hdated _ hy] at hxy
    exact hxy

open Replay (tagged loneNote noteFilter)

/-- A store that has got an older note after the first. -/
def olderNote : Store :=
  .memory ((MemoryStore.empty.insert (tagged 0x22 10 [0x61])).insert (tagged 0x33 5 [0x61]))

/-- A call that pauses at once. -/
def hastyCall : Call := ⟨loneNote.view, fun _ => false, ⟨fun _ _ => true, .none⟩⟩

/-- A call that meets both notes. -/
def patientCall : Call := ⟨olderNote.view, fun _ => false, .undisturbed⟩

theorem history_olderNote : Store.History ([hastyCall, patientCall].map Call.view) := by
  have hfirst : Store.Later (.memory .empty) loneNote :=
    Store.Later.refl.insert (rfl : Store.insertWithText _ (tagged 0x22 10 [0x61]) "" = _)
  have hsecond : Store.Later loneNote olderNote :=
    Store.Later.refl.insert (rfl : Store.insertWithText _ (tagged 0x33 5 [0x61]) "" = _)
  exact ⟨_, .inl rfl, .cons hfirst (.cons hsecond .nil)⟩

theorem calls_olderNote :
    ((ofFilter noteFilter 20).calls [hastyCall, patientCall]).flatMap Passed.seqs = [1, 2] := by
  -- the first call leaves the scan as it was, but for the work
  have hpaused : (ofFilter noteFilter 20).call hastyCall.ends hastyCall.view [] hastyCall.attempt
      = ⟨{ ofFilter noteFilter 20 with work := 1 }, .ok false, ⟨[], [1]⟩, .none, []⟩ := by
    rw [call, Scan.run]
    rfl
  have hs : ({ ofFilter noteFilter 20 with work := 1 } : Scan).Consistent := consistent_ofPlan.withWork 1
  have hagenda : ({ ofFilter noteFilter 20 with work := 1 } : Scan).agenda patientCall.view
      = [⟨10, 1⟩, ⟨5, 2⟩] := by
    apply Stamp.sort_of_pairwise
    decide +kernel
  have htold := (@told_call patientCall.ends patientCall.view _ [] hs .undisturbed).complete
    outcome_undisturbed
  have hprospect : ∀ seqs, prospect patientCall.ends [] seqs = seqs := fun _ => prospect_never
  rw [hprospect, hits, hagenda] at htold
  rw [calls, calls, calls, hpaused, List.flatMap_cons, List.flatMap_singleton]
  exact htold

/-- The note that came last is the older one, and is passed on behind the other. -/
theorem newestFirst_olderNote :
    Store.History ([hastyCall, patientCall].map Call.view)
    ∧ ((ofFilter noteFilter 20).calls [hastyCall, patientCall]).flatMap Passed.seqs = [1, 2]
    ∧ ∃ dates : Nat → UInt64, (∀ c ∈ [hastyCall, patientCall], c.view.IsDated dates)
      ∧ (∀ seq ∈ [1, 2], ∃ c ∈ [hastyCall, patientCall],
        c.view.Lists (Plan.ofFilter noteFilter 20) ⟨dates seq, seq⟩)
      ∧ [1, 2].Pairwise fun a b => Stamp.comesFirst ⟨dates a, a⟩ ⟨dates b, b⟩ = true := by
  have hordered := newestFirst_calls noteFilter 20 history_olderNote
  rw [calls_olderNote] at hordered
  exact ⟨history_olderNote, calls_olderNote, hordered⟩

end Scan

end EventRelay
