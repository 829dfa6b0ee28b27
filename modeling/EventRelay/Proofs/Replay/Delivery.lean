import EventRelay.Proofs.Reading
import EventRelay.Proofs.Replay.Answer
import EventRelay.Proofs.Replay.Outlook
import EventRelay.Proofs.Scan.Coverage
/-!
# What a replay delivers

A replay that gets slices against one view becomes complete, and its deliveries, slice by slice, make
up its outlook.  If the fields that its filters are searched by hold identifiers or numbers, this is
the answer to its filter group, however often the replay pauses on the way.

Main statements: `serve_spec` for any group and view, and `served_answer` for the groups and stores
where the index misleads no walk.
-/

namespace EventRelay

/-! ### Reads that do not fail -/

theorem Faults.read_none {α : Type} {m : ReadMethod} {a : α} : Faults.none.read m a = (.ok a, .none) := by
  cases m <;> rfl

theorem Cursor.collect_none {c : Cursor} {v : View} {k : IndexKind} {since : UInt64}
    {number limit : Nat} : ∃ b, c.collect v .none k since number limit = (.ok b, .none) := by
  rw [collect]
  split
  · exact ⟨_, Faults.read_none⟩
  · exact ⟨_, rfl⟩

namespace Scan

theorem refill_none {s : Scan} {v : View} {number : Nat} :
    ∃ b, s.refill v .none number = (.ok b, .none) := by
  rw [refill]
  split
  · exact ⟨_, rfl⟩
  · rename_i c _
    split
    · obtain ⟨b, hb⟩ := @Cursor.collect_none c v s.index s.filter.since number s.refillBatch
      rw [hb]
      exact ⟨_, rfl⟩
    · exact ⟨_, rfl⟩

theorem judge_none {s : Scan} {v : View} {next : Candidate} :
    ∃ accepted reports, s.judge v .none next = ⟨.ok accepted, .none, reports⟩ := by
  rw [judge]
  split
  · exact ⟨_, _, rfl⟩
  · rw [View.readRow, Faults.read_none]
    cases v.rows.get? next.seq with
    | none => exact ⟨_, _, rfl⟩
    | some row => exact ⟨_, _, rfl⟩

/-- A step whose reads do not fail plans no failures. -/
theorem advance_none {s : Scan} {v : View} :
    (s.advance v .none).faults = .none ∧ ∀ s' e, (s.advance v .none).outcome ≠ .failed s' e := by
  rw [advance]
  split
  · rename_i c hc
    obtain ⟨b, hb⟩ := @Cursor.collect_none c v s.index s.filter.since s.seeded s.initialBatch
    rw [hb]
    refine ⟨rfl, ?_⟩
    intro s' e h
    cases h
  · split
    · refine ⟨rfl, ?_⟩
      intro s' e h
      cases h
    · rename_i next rest hbuffer
      obtain ⟨accepted, reports, hjudge⟩ :=
        @judge_none { s with work := s.work + s.judgingCost } v next
      obtain ⟨b, hb⟩ := @refill_none { s with work := s.work + s.judgingCost } v next.cursor
      simp only [hjudge, hb]
      refine ⟨trivial, ?_⟩
      intro s' e h
      cases h

theorem run_none {σ : Type} {control : Control σ} {v : View} {s : Scan} {f : Faults} {a : σ}
    {reports : List CorruptRow} (hf : f = .none) :
    (s.run control v f a reports).faults = .none
      ∧ ∀ e, (s.run control v f a reports).outcome ≠ .error e := by
  fun_induction run control v s f a reports with
  | case1 => exact ⟨hf, fun e h => by cases h⟩
  | case2 s f a reports s' a' hpause f' found hadv =>
    subst hf
    have hstep := @advance_none s' v
    rw [hadv] at hstep
    exact ⟨hstep.1, fun e h => by cases h⟩
  | case3 s f a reports s' a' hpause s'' e f' found hadv =>
    subst hf
    have hstep := @advance_none s' v
    rw [hadv] at hstep
    exact absurd rfl (hstep.2 s'' e)
  | case4 s f a reports s' a' hpause s'' f' found hadv ih =>
    subst hf
    have hstep := @advance_none s' v
    rw [hadv] at hstep
    exact ih hstep.1
  | case5 s f a reports s' a' hpause s'' seq f' found a'' hmatch hadv =>
    subst hf
    have hstep := @advance_none s' v
    rw [hadv] at hstep
    exact ⟨hstep.1, fun e h => by cases h⟩
  | case6 s f a reports s' a' hpause s'' seq f' found a'' hmatch hadv ih =>
    subst hf
    have hstep := @advance_none s' v
    rw [hadv] at hstep
    exact ih hstep.1
  | case7 s f a reports s' a' hpause s'' seq accepted f' found hadv hrejected ih =>
    subst hf
    have hstep := @advance_none s' v
    rw [hadv] at hstep
    exact ih hstep.1

end Scan

namespace Replay

theorem process_none {r : Replay} {v : View} {clock : Clock} {f : Faults} {log : List LogLine}
    (hf : f = .none) : ∀ e, (r.process v clock f log).outcome ≠ .error e := by
  fun_induction process r v clock f log with
  | case1 =>
    intro e h
    cases h
  | case2 r f log filter hget hlimit ih => exact ih hf
  | case3 r f log filter hget hlimit scan run log' e hend => exact absurd hend ((Scan.run_none hf).2 e)
  | case4 =>
    intro e h
    cases h
  | case5 r f log filter hget hlimit scan run log' hend ih => exact ih (Scan.run_none hf).1

theorem faults_process {r : Replay} {v : View} {clock : Clock} {f : Faults} {log : List LogLine}
    (hf : f = .none) : (r.process v clock f log).faults = .none := by
  fun_induction process r v clock f log with
  | case1 => exact hf
  | case2 r f log filter hget hlimit ih => exact ih hf
  | case3 => exact (Scan.run_none hf).1
  | case4 => exact (Scan.run_none hf).1
  | case5 r f log filter hget hlimit scan run log' hend ih => exact ih (Scan.run_none hf).1

/-- With time that is never used up, a slice does not pause. -/
theorem process_unlimited {r : Replay} {v : View} {f : Faults} {log : List LogLine} :
    (r.process v .unlimited f log).outcome ≠ .ok false := by
  fun_induction process r v .unlimited f log with
  | case1 =>
    intro h
    cases h
  | case2 r f log filter hget hlimit ih => exact ih
  | case3 =>
    intro h
    cases h
  | case4 r f log filter hget hlimit scan run log' hend =>
    obtain ⟨a, hpause, -⟩ := Scan.run_paused hend
    simp only [control, Clock.unlimited] at hpause
    split at hpause <;> cases congrArg Prod.snd hpause
  | case5 r f log filter hget hlimit scan run log' hend ih => exact ih

/-! ### Slice by slice -/

/-- Gives a replay slices against one view, each with a clock of its own, until it does not pause: what
each of them delivers, and how the last one ends. -/
def serve (r : Replay) (v : View) (clocks : Nat → Clock) (n : Nat) :
    List (List Nat) × Except ReadError Bool :=
  let slice := r.process v (clocks n) .none []
  match _h : slice.outcome with
  | .ok false =>
    let rest := serve slice.replay v clocks (n + 1)
    (r.deliveredSince slice.replay :: rest.1, rest.2)
  | outcome => ([r.deliveredSince slice.replay], outcome)
termination_by (r.filtersLeft, r.remaining v)
decreasing_by exact lex_of_paused _h

/-- A replay that is served becomes complete and delivers what its outlook lacks. -/
theorem serve_spec {r : Replay} (hr : r.Sound) (v : View) (clocks : Nat → Clock) (n : Nat) :
    (r.serve v clocks n).2 = .ok true
      ∧ r.delivered ++ (r.serve v clocks n).1.flatten = r.outlook v := by
  fun_induction serve r v clocks n with
  | case1 r n slice hend rest ih =>
    have hserved : Served v r slice := served hr
    obtain ⟨hcomplete, hflatten⟩ := ih hserved.sound
    refine ⟨hcomplete, ?_⟩
    rw [List.flatten_cons, ← List.append_assoc, ← hserved.delivered_append, hflatten,
      hserved.outlook_eq]
  | case2 r n slice hend =>
    have hserved : Served v r slice := served hr
    have houtcome : slice.outcome = .ok true := by
      cases h : slice.outcome with
      | error e => exact absurd h (process_none rfl e)
      | ok b =>
        cases b with
        | true => rfl
        | false => exact absurd h hend
    refine ⟨houtcome, ?_⟩
    rw [List.flatten_singleton, ← hserved.delivered_append, hserved.delivered_eq houtcome]

/-! ### A small store -/

/-- Somebody who asks for events. -/
def asker : Recipient := ⟨1, ⟨"q", by decide +kernel⟩⟩

/-- A note with one tag `t`. -/
def tagged (digit : UInt8) (time : UInt64) (value : Bytes) : Event where
  id := ⟨List.replicate 32 digit, List.length_replicate⟩
  author := ⟨List.replicate 32 0x11, List.length_replicate⟩
  createdAt := time
  kind := 1
  expiration := none
  tags := [⟨0x74, value⟩]

/-- A store with a note tagged `a` and a newer one tagged `ab`. -/
def twoNotes : Store :=
  .memory ((MemoryStore.empty.insert (tagged 0x22 10 [0x61])).insert (tagged 0x33 20 [0x61, 0x62]))

theorem built_twoNotes : twoNotes.Built Event.FromJson := by
  have hfirst : (tagged 0x22 10 [0x61]).FromJson := ⟨(tagged 0x22 10 [0x61]).toJson, rfl⟩
  have hsecond : (tagged 0x33 20 [0x61, 0x62]).FromJson :=
    ⟨(tagged 0x33 20 [0x61, 0x62]).toJson, rfl⟩
  exact (Store.Built.memory.memory_insert hfirst).memory_insert hsecond

/-! ### The answer -/

theorem yield_eq_answer {f : Filter} (hf : f.FromJson) (hfixed : f.primaryField.isFixed = true)
    {cap : UInt64} {v : View} (hv : v.Mirrors) (htags : v.HasIdTags) {w : Nat} :
    Scan.yield f cap v w = f.answer v w := by
  rw [Scan.yield, Scan.eraseDups_awaited_ofFilter hf.wellRead hfixed hv htags, Filter.answer]

/-- The outlook of a replay that has not begun is the answer to its group. -/
theorem outlook_start_eq_answer {who : Recipient} {g : FilterGroup}
    (hg : ∀ f ∈ g.filters, f.FromJson ∧ f.primaryField.isFixed = true) {w : Nat} {cap : UInt64}
    {logScans : Bool} {v : View} (hv : v.Mirrors) (htags : v.HasIdTags) :
    (start ⟨⟨who, g⟩, w⟩ cap logScans).outlook v = g.answer v w := by
  rw [outlook_start, FilterGroup.answer]
  congr 1
  apply List.flatMap_congr
  intro f hf
  exact yield_eq_answer (hg f hf).1 (hg f hf).2 hv htags

/-- A replay delivers the answer to its filter group: in slices that pause whenever their clocks say so,
and in one slice if its time is not limited. -/
theorem served_answer {s : Store} (hs : s.Built Event.FromJson) {g : FilterGroup}
    (hg : ∀ f ∈ g.filters, f.FromJson ∧ f.primaryField.isFixed = true) (who : Recipient)
    (watermark : Nat) (cap : UInt64) (logScans : Bool) (clocks : Nat → Clock) (log : List LogLine) :
    let r := start ⟨⟨who, g⟩, watermark⟩ cap logScans
    let slice := r.process s.view .unlimited .none log
    (r.serve s.view clocks 0).2 = .ok true
      ∧ (r.serve s.view clocks 0).1.flatten = g.answer s.view watermark
      ∧ slice.outcome = .ok true
      ∧ r.deliveredSince slice.replay = g.answer s.view watermark := by
  intro r slice
  have hv := hs.view
  have hr : r.Sound := sound_start
  have houtlook : r.outlook s.view = g.answer s.view watermark :=
    outlook_start_eq_answer hg hv.mirrors hv.hasIdTags
  obtain ⟨hcomplete, hflatten⟩ := serve_spec hr s.view clocks 0
  have hserved : Served s.view r slice := served hr
  have houtcome : slice.outcome = .ok true := by
    cases h : slice.outcome with
    | error e => exact absurd h (process_none rfl e)
    | ok b =>
      cases b with
      | true => rfl
      | false => exact absurd h process_unlimited
  refine ⟨hcomplete, ?_, houtcome, ?_⟩
  · rw [← houtlook, ← hflatten]
    rfl
  · rw [← houtlook, ← hserved.delivered_eq houtcome, hserved.delivered_append]
    rfl

theorem served_newest_first :
    let notes : Filter := { Filter.unrestricted with kinds := some (.ofList [1]), indexOnly := true }
    let r := start ⟨⟨asker, ⟨[notes]⟩⟩, 2⟩ 20 false
    (r.serve twoNotes.view (fun _ => .exhausted) 0).1.flatten = [2, 1] := by
  intro notes r
  have hnotes : notes.FromJson :=
    ⟨Filter.unbounded, .object [("kinds", .array [.number (.integer false 1)])], rfl⟩
  have hgroup : ∀ f ∈ [notes], f.FromJson ∧ f.primaryField.isFixed = true := by
    intro f hf
    cases List.mem_singleton.1 hf
    exact ⟨hnotes, rfl⟩
  have hserved := served_answer (g := ⟨[notes]⟩) built_twoNotes hgroup asker 2 20
    false (fun _ => .exhausted) []
  have hstamps : notes.stampsIn twoNotes.view 2 = [⟨20, 2⟩, ⟨10, 1⟩] := by decide +kernel
  have hmatches : notes.matchesIn twoNotes.view 2 = [2, 1] := by
    rw [Filter.matchesIn, hstamps, Stamp.sort_of_pairwise (by decide)]
    rfl
  have hanswer : FilterGroup.answer ⟨[notes]⟩ twoNotes.view 2 = [2, 1] := by
    rw [FilterGroup.answer, List.flatMap_singleton, Filter.answer, hmatches]
    decide +kernel
  exact hserved.2.1.trans hanswer

end Replay

end EventRelay
