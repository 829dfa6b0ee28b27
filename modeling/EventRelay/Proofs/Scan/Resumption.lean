import EventRelay.Proofs.Scan.Agenda
import EventRelay.Proofs.Replay.Delivery
/-!
# Resuming a scan

A scan is called again and again until a call returns true; between the calls it has paused, or a read
has failed.  Its caller may pause it whenever it likes and end it on whatever it has been told so far.
The calls together pass on what one call passes on that neither pauses nor fails.

What carries this is the caller's prospect: what it has been told and, behind that, what the hits on the
agenda will add before it ends the scan.  A call leaves the prospect as it was, wherever it stops.

Main statement: `resumed_repeated`.
-/

namespace EventRelay

/-- What calls have passed on together that were repeated until one returned true, and whether one
has. -/
structure Repeated where
  passed : List Nat
  complete : Bool

/-- Whether interrupted calls stand to uninterrupted ones as they should: they pass on a beginning of the
same, and all of it once one returns true. -/
structure Repeated.Resumes (parts whole : Repeated) : Prop where
  whole_complete : whole.complete = true
  begins : parts.passed <+: whole.passed
  passed_eq : parts.complete = true → parts.passed = whole.passed

namespace Scan

/-! ### Calls -/

/-- What happens in one call. -/
structure Attempt where
  /-- Whether the call pauses, by the work at every poll of the call and what has been passed on. -/
  pause : List Nat → List Nat → Bool
  faults : Faults

/-- A call that does not pause and whose reads do not fail. -/
def Attempt.undisturbed : Attempt := ⟨fun _ _ => false, .none⟩

/-- What a caller has seen of a scan: the matches that have been passed on, and the work at every poll
of the call. -/
structure Record where
  told : List Nat
  polls : List Nat

/-- A caller that ends the scan, or pauses it, by all it has seen. -/
def recorder (ends : List Nat → Bool) (pause : List Nat → List Nat → Bool) : Control Record where
  onMatch a seq := ({ a with told := a.told ++ [seq] }, ends (a.told ++ [seq]))
  pause a work := ({ a with polls := a.polls ++ [work] }, pause (a.polls ++ [work]) a.told)

/-- Calls a scan when `told` has been passed on. -/
def call (ends : List Nat → Bool) (v : View) (s : Scan) (told : List Nat) (a : Attempt) : Run Record :=
  s.run (recorder ends a.pause) v a.faults ⟨told, []⟩ []

/-- Calls a scan until a call returns true. -/
def repeated (ends : List Nat → Bool) (v : View) (s : Scan) (told : List Nat) :
    List Attempt → Repeated
  | [] => ⟨told, false⟩
  | a :: rest =>
    match (s.call ends v told a).outcome with
    | .ok true => ⟨(s.call ends v told a).state.told, true⟩
    | _ => repeated ends v (s.call ends v told a).scan (s.call ends v told a).state.told rest

/-! ### The prospect of a caller -/

/-- The matches that a scan has still to pass on, in order. -/
def hits (s : Scan) (v : View) : List Nat := ((s.agenda v).filter (s.verdict v)).map Stamp.seq

/-- What a caller will have been told when it has ended the scan or nothing is left. -/
def prospect (ends : List Nat → Bool) (told : List Nat) : List Nat → List Nat
  | [] => told
  | seq :: rest => if ends (told ++ [seq]) then told ++ [seq] else prospect ends (told ++ [seq]) rest

variable {ends : List Nat → Bool} {v : View} {s s' : Scan} {told : List Nat}

theorem told_prefix_prospect {seqs : List Nat} : told <+: prospect ends told seqs := by
  induction seqs generalizing told with
  | nil => exact List.prefix_refl _
  | cons seq rest ih =>
    rw [prospect]
    split
    · exact List.prefix_append _ _
    · exact (List.prefix_append _ _).trans ih

theorem Continues.hits_eq (h : s'.Continues s) (hagenda : s'.agenda v = s.agenda v) :
    s'.hits v = s.hits v := by
  rw [hits, hits, hagenda, h.verdict_eq]

/-- Judging a match takes it off the hits. -/
theorem hits_of_judged {x : Stamp} {accepted : Bool} (h : s'.Continues s)
    (hagenda : s.agenda v = x :: s'.agenda v) (haccepted : accepted = s.verdict v x) :
    s.hits v = (if accepted then [x.seq] else []) ++ s'.hits v := by
  rw [hits, hits, hagenda, h.verdict_eq, List.filter_cons, ← haccepted]
  split <;> rfl

/-- What a call comes to: the caller has been told all its prospect, or the prospect is as it was. -/
structure Told (ends : List Nat → Bool) (v : View) (s : Scan) (told : List Nat) (run : Run Record) :
    Prop where
  consistent : run.scan.Consistent
  complete : run.outcome = .ok true → run.state.told = prospect ends told (s.hits v)
  incomplete : run.outcome ≠ .ok true →
    prospect ends run.state.told (run.scan.hits v) = prospect ends told (s.hits v)

/-- A run that goes on behind the first step of a scan is one of the scan. -/
theorem Told.behind {told' : List Nat} {run : Run Record} (h : Told ends v s' told' run)
    (hsame : prospect ends told' (s'.hits v) = prospect ends told (s.hits v)) :
    Told ends v s told run where
  consistent := h.consistent
  complete hend := (h.complete hend).trans hsame
  incomplete hend := (h.incomplete hend).trans hsame

theorem told_run {pause : List Nat → List Nat → Bool} {f : Faults} {a : Record}
    {reports : List CorruptRow} (hs : s.Consistent) :
    Told ends v s a.told (s.run (recorder ends pause) v f a reports) := by
  fun_induction run (recorder ends pause) v s f a reports with
  | case1 s f a reports s' a' hpause =>
    cases congrArg Prod.fst hpause
    exact ⟨hs.withWork _, (fun h => by cases h), fun _ => rfl⟩
  | case2 s f a reports s' a' hpause f' found hadv =>
    cases congrArg Prod.fst hpause
    cases hs.progress_of_advance hadv with
    | finished hagenda =>
      refine ⟨hs.withWork _, fun _ => ?_, fun h => absurd rfl h⟩
      have hnone : s.hits v = [] := by
        have hagenda : s.agenda v = [] := hagenda
        rw [hits, hagenda]
        rfl
      rw [hnone]
      rfl
  | case3 s f a reports s' a' hpause s'' e f' found hadv =>
    cases congrArg Prod.fst hpause
    cases hs.progress_of_advance hadv with
    | failed hs'' hcont hagenda =>
      have hhits : s''.hits v = s.hits v := hcont.hits_eq hagenda
      exact ⟨hs'', (fun h => by cases h), fun _ => congrArg (prospect ends a.told) hhits⟩
  | case4 s f a reports s' a' hpause s'' f' found hadv ih =>
    cases congrArg Prod.fst hpause
    cases hs.progress_of_advance hadv with
    | seeded hs'' hcont hagenda =>
      have hhits : s''.hits v = s.hits v := hcont.hits_eq hagenda
      exact (ih hs'').behind (congrArg (prospect ends a.told) hhits)
  | case5 s f a reports s' a' hpause s'' seq f' found a'' hmatch hadv =>
    cases congrArg Prod.fst hpause
    cases congrArg Prod.fst hmatch
    -- the match ends the run, for the caller wants no more
    have hends : ends (a.told ++ [seq]) = true := congrArg Prod.snd hmatch
    cases hs.progress_of_advance hadv with
    | judged hs'' hcont hagenda haccepted =>
      have hhits : s.hits v = _ := hits_of_judged hcont hagenda haccepted
      rw [if_pos rfl] at hhits
      refine ⟨hs'', fun _ => ?_, fun h => absurd rfl h⟩
      rw [hhits, List.singleton_append, prospect, if_pos hends]
  | case6 s f a reports s' a' hpause s'' seq f' found a'' hmatch hadv ih =>
    cases congrArg Prod.fst hpause
    cases congrArg Prod.fst hmatch
    have hends : ends (a.told ++ [seq]) = false := congrArg Prod.snd hmatch
    cases hs.progress_of_advance hadv with
    | judged hs'' hcont hagenda haccepted =>
      have hhits : s.hits v = _ := hits_of_judged hcont hagenda haccepted
      rw [if_pos rfl] at hhits
      refine (ih hs'').behind ?_
      rw [hhits, List.singleton_append, prospect, hends, if_neg Bool.false_ne_true]
  | case7 s f a reports s' a' hpause s'' seq accepted f' found hadv hrejected ih =>
    cases congrArg Prod.fst hpause
    cases hs.progress_of_advance hadv with
    | judged hs'' hcont hagenda haccepted =>
      have hhits : s.hits v = _ := hits_of_judged hcont hagenda haccepted
      rw [if_neg hrejected, List.nil_append] at hhits
      exact (ih hs'').behind (congrArg (prospect ends a.told) hhits.symm)

theorem told_call (hs : s.Consistent) (a : Attempt) :
    Told ends v s told (s.call ends v told a) :=
  @told_run ends v s a.pause a.faults ⟨told, []⟩ [] hs

/-- A call that is not disturbed returns true. -/
theorem outcome_undisturbed : (s.call ends v told .undisturbed).outcome = .ok true := by
  cases h : (s.call ends v told .undisturbed).outcome with
  | error e => exact absurd h ((run_none rfl).2 e)
  | ok b =>
    cases b with
    | true => rfl
    | false =>
      obtain ⟨a, hpause, -⟩ := run_paused h
      cases congrArg Prod.snd hpause

/-- Calls that are repeated pass on a beginning of the prospect, and all of it once one returns true. -/
theorem repeated_spec (hs : s.Consistent) (attempts : List Attempt) :
    (s.repeated ends v told attempts).passed <+: prospect ends told (s.hits v)
      ∧ ((s.repeated ends v told attempts).complete = true →
        (s.repeated ends v told attempts).passed = prospect ends told (s.hits v)) := by
  induction attempts generalizing s told with
  | nil => exact ⟨told_prefix_prospect, nofun⟩
  | cons a rest ih =>
    have htold : Told ends v s told (s.call ends v told a) := told_call hs a
    rw [repeated]
    split
    · rename_i hend
      rw [htold.complete hend]
      exact ⟨List.prefix_refl _, fun _ => rfl⟩
    · rename_i hend
      rw [← htold.incomplete hend]
      exact ih htold.consistent

/-- A scan can be resumed: what its calls pass on until one returns true is what a single undisturbed call
passes on. -/
theorem resumed_repeated (f : Filter) (cap : UInt64) (v : View) (ends : List Nat → Bool)
    (attempts : List Attempt) :
    ((ofFilter f cap).repeated ends v [] attempts).Resumes
      ((ofFilter f cap).repeated ends v [] [.undisturbed]) := by
  have hs : (ofFilter f cap).Consistent := consistent_ofPlan
  have hcomplete : ((ofFilter f cap).repeated ends v [] [.undisturbed]).complete = true := by
    simp only [repeated, outcome_undisturbed]
  have hwhole := (repeated_spec hs [.undisturbed]).2 hcomplete
  obtain ⟨hbegins, heq⟩ := @repeated_spec ends v (ofFilter f cap) [] hs attempts
  rw [← hwhole] at hbegins heq
  exact ⟨hcomplete, hbegins, heq⟩

end Scan

end EventRelay
