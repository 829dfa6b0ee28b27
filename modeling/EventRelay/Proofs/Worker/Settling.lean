import EventRelay.Proofs.Scheduler.Descent
import EventRelay.Proofs.Worker.Undisturbed
/-!
# Replay comes to an end

A worker that is told nothing more, and whose reads do not fail, comes to rest: its messages are handled
in the first step, its handoffs go live in every step, and its replays descend turn by turn, whatever
becomes of the store meanwhile and however often the clocks of the turns have them pause.

Main statement: `replay_terminates`.
-/

namespace EventRelay

namespace Worker

/-! ### Workers that can be reached -/

/-- The workers that steps lead to, whatever they are shown, told and fail to read. -/
inductive Reached (c : Config) : Worker → Prop
  | start : Reached c (.start c)
  | step {w : Worker} (v : View) (clock : Clock) (f : Faults) (messages : List Message) : Reached c w →
      Reached c (w.step v clock f messages).worker

variable {c : Config} {v : View} {clock : Clock} {w : Worker} {p : Pass} {f : Faults}

theorem Course.reached {s : Store} {deeds : List Deed} (h : Course c s w deeds) : Reached c w := by
  induction h with
  | start _ => exact .start
  | change _ _ ih => exact ih
  | step clock f messages _ ih => exact ih.step _ clock f messages

/-! ### Calls of the scheduler -/

theorem queries_handle (m : Message) :
    ∃ calls : List Scheduler.Call,
      (handle v p m).worker.queries = calls.foldl Scheduler.run p.worker.queries := by
  cases m with
  | newSub sub =>
    refine ⟨[.add sub v.latestSeq (({ p.worker with
      monitors := p.worker.monitors.remove sub.toRecipient }.dropHandoff sub.toRecipient).liveSubs
        sub.conn)], ?_⟩
    rw [handle, addSub]
    simp only
    split <;> rfl
  | removeSub who => exact ⟨[.remove who], rfl⟩
  | closeConn conn => exact ⟨[.closeConn conn], rfl⟩
  | dbChange =>
    refine ⟨[], ?_⟩
    rw [handle, dispatch]
    simp only
    split <;> rfl

theorem queries_handleAll (ms : List Message) :
    ∃ calls : List Scheduler.Call,
      (ms.foldl (handle v) p).worker.queries = calls.foldl Scheduler.run p.worker.queries := by
  induction ms generalizing p with
  | nil => exact ⟨[], rfl⟩
  | cons m rest ih =>
    obtain ⟨first, hfirst⟩ := @queries_handle v p m
    obtain ⟨calls, hcalls⟩ := @ih (handle v p m)
    refine ⟨first ++ calls, ?_⟩
    rw [List.foldl_cons, hcalls, hfirst, List.foldl_append]

theorem queries_runQuery :
    (runQuery v clock p).worker.queries = (p.worker.queries.process v clock p.faults).scheduler := by
  simp only [runQuery]
  split <;> rfl

theorem faults_runQuery :
    (runQuery v clock p).faults = (p.worker.queries.process v clock p.faults).faults := by
  simp only [runQuery]
  split <;> rfl

theorem queries_install {position : Nat} {fs : List Follower} :
    (install v position p fs).worker.queries = p.worker.queries := by
  induction fs generalizing p with
  | nil => rfl
  | cons follower rest ih =>
    rw [install]
    simp only
    split
    · rfl
    · split
      · exact ih
      · exact ih

theorem queries_stepIn : ∃ calls : List Scheduler.Call,
    (w.stepIn v clock f).worker.queries = calls.foldl Scheduler.run w.queries := by
  obtain ⟨calls, hcalls⟩ : ∃ calls : List Scheduler.Call, (w.briefed v f).worker.queries = _ :=
    queries_handleAll w.pending
  refine ⟨calls ++ [.process v clock (w.briefed v f).faults], ?_⟩
  rw [List.foldl_append, stepIn, queries_install, queries_runQuery]
  exact congrArg (fun s => (Scheduler.process s v clock _).scheduler) hcalls

/-- What a step does to the scheduler is a list of calls. -/
theorem queries_step (messages : List Message) : ∃ calls : List Scheduler.Call,
    (w.step v clock f messages).worker.queries = calls.foldl Scheduler.run w.queries := by
  rw [step]
  split
  · exact ⟨[], rfl⟩
  · split
    · exact ⟨[], rfl⟩
    · exact queries_stepIn

theorem Reached.tidy (h : Reached c w) : w.queries.Tidy := by
  induction h with
  | start => exact Scheduler.tidy_start
  | step v clock f messages _ ih =>
    obtain ⟨calls, hcalls⟩ := queries_step messages
    rw [hcalls]
    exact ih.foldl_run calls

/-! ### Steps without messages -/

theorem catchUp_none {position : Nat} {follower : Follower} :
    ∃ follower' out, catchUp v position .none follower = (follower', out, none, .none) := by
  rw [catchUp]
  split
  · exact ⟨_, _, rfl⟩
  · exact ⟨_, _, rfl⟩

/-- Where no read fails, everything in the handoff queue goes live. -/
theorem handoffs_install {position : Nat} {fs : List Follower} (hfaults : p.faults = .none) :
    (install v position p fs).worker.handoffs = [] := by
  induction fs generalizing p with
  | nil => rfl
  | cons follower rest ih =>
    obtain ⟨follower', out, hcaught⟩ := @catchUp_none v position follower
    rw [install, hfaults, hcaught]
    simp only
    split
    · exact ih rfl
    · exact ih rfl

/-- A step of a worker that has nothing to handle is a turn of its scheduler; what goes into the handoff
queue leaves it at once. -/
theorem step_of_pending (h : w.pending = []) :
    (w.step v clock .none []).worker.queries = (w.queries.process v clock .none).scheduler
      ∧ (w.step v clock .none []).worker.handoffs = [] := by
  rw [step_none, stepIn, h]
  refine ⟨queries_install.trans queries_runQuery, handoffs_install ?_⟩
  rw [faults_runQuery]
  exact Scheduler.faults_process _ _ _

/-! ### A worker left alone -/

/-- A worker after `n` steps without messages, each against a view and with a clock of its own. -/
def leftAlone (w : Worker) (views : ℕ → View) (clocks : ℕ → Clock) : ℕ → Worker
  | 0 => w
  | n + 1 => ((leftAlone w views clocks n).step (views n) (clocks n) .none []).worker

section

variable {views : ℕ → View} {clocks : ℕ → Clock}

theorem pending_leftAlone (n : ℕ) : (w.leftAlone views clocks (n + 1)).pending = [] := pending_step

theorem Reached.leftAlone (h : Reached c w) (n : ℕ) : Reached c (w.leftAlone views clocks n) := by
  induction n with
  | zero => exact h
  | succ n ih => exact ih.step _ _ _ _

/-- From the second step on, a worker that is left alone is idle once its scheduler is. -/
theorem isIdle_leftAlone (n : ℕ) : (w.leftAlone views clocks (n + 2)).isIdle
    = (w.leftAlone views clocks (n + 2)).queries.isIdle := by
  have hhandoffs : (w.leftAlone views clocks (n + 2)).handoffs = [] :=
    (step_of_pending (pending_leftAlone n)).2
  rw [isIdle, pending_leftAlone, hhandoffs]
  simp

theorem queries_leftAlone (n : ℕ) : (w.leftAlone views clocks (n + 2)).queries
    = ((w.leftAlone views clocks (n + 1)).queries.process (views (n + 1)) (clocks (n + 1))
        .none).scheduler :=
  (step_of_pending (pending_leftAlone n)).1

/-- A queue that is empty stays empty. -/
theorem ready_leftAlone {n m : ℕ} (hnm : n ≤ m)
    (h : (w.leftAlone views clocks (n + 1)).queries.ready = []) :
    (w.leftAlone views clocks (m + 1)).queries.ready = [] := by
  induction hnm with
  | refl => exact h
  | step _ ih =>
    rw [queries_leftAlone, Scheduler.process, ih]
    exact ih

/-- A worker that is left alone becomes idle, and stays so. -/
theorem Reached.settles (h : Reached c w) :
    ∃ n, ∀ m, n ≤ m → (w.leftAlone views clocks m).isIdle = true := by
  -- the scheduler goes down from the first step on, but not for ever
  obtain ⟨n, hn⟩ := WellFounded.not_rel_apply_succ (r := (· < ·))
    fun n => (w.leftAlone views clocks (n + 1)).queries.rank
  have hready : (w.leftAlone views clocks (n + 1)).queries.ready = [] := by
    by_contra hready
    refine hn ?_
    rw [queries_leftAlone]
    exact (h.leftAlone (n + 1)).tidy.rank_process_lt hready _ _
  refine ⟨n + 2, fun m hm => ?_⟩
  obtain ⟨m, rfl⟩ : ∃ k, m = k + 2 := ⟨m - 2, by omega⟩
  rw [isIdle_leftAlone, Scheduler.isIdle, ready_leftAlone (by omega) hready]
  rfl

end

/-- Replay comes to an end, whatever is stored and deleted meanwhile.  A replay that gets one slice after
the other, each against any view and with any time, is answered by every slice, and by all from some slice
on that it is complete; and a worker that has come about in any way and is told nothing more becomes idle,
and stays so, while no read fails. -/
theorem replay_terminates :
    (∀ (follower : Follower) (cap : UInt64) (logScans : Bool) (views : ℕ → View) (clocks : ℕ → Clock),
        ∃ n, ∀ m, (Replay.start follower cap logScans).ending views clocks m = .ok (decide (n ≤ m)))
      ∧ ∀ (c : Config) (w : Worker), Reached c w → ∀ (views : ℕ → View) (clocks : ℕ → Clock),
        ∃ n, ∀ m, n ≤ m → (w.leftAlone views clocks m).isIdle = true :=
  ⟨fun _ _ _ _ _ => Replay.sound_start.completes, fun _ _ h _ _ => h.settles⟩

/-- The index cannot be read when the replay of the subscription has its first turn. -/
def stalled : Worker :=
  ((start .default).step oneNote.view .unlimited
    (Faults.none.arm .scanBack 0 ⟨0, ⟨"disk I/O error"⟩⟩) [.newSub noteSub]).worker

/-- The note it waits for is gone by the time the index can be read again. -/
theorem replay_terminates_stalled :
    stalled.isIdle = false ∧ Reached .default stalled
      ∧ ∃ n, ∀ m, n ≤ m →
        (stalled.leftAlone (fun _ => newerNote.view) (fun _ => .exhausted) m).isIdle = true := by
  have hreached : Reached .default stalled := Reached.start.step _ _ _ _
  exact ⟨by decide +kernel, hreached, replay_terminates.2 _ _ hreached _ _⟩

end Worker

end EventRelay
