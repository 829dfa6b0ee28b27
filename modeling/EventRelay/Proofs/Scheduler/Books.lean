import EventRelay.Proofs.Replay.Delivery
import EventRelay.Proofs.Scheduler.Serving
/-!
# The books of a scheduler

Registry, replays and ready queue are three lists of the same work.  After any calls, turns that pause or
fail among them, they are the same list: who waits is stored, who is stored waits once, and who is
registered is stored and alive under its own name.  A replay that has lost its name has lost it for good:
nothing takes it up again, and its next turn, if it has one, only clears it away.

Main statement: `agreement_after`.
-/

namespace EventRelay

namespace Scheduler

/-! ### Turns -/

/-- The ways in which a turn can go. -/
inductive Turns (s : Scheduler) (v : View) (clock : Clock) (f : Faults) : Turn → Prop where
  | idle (hready : s.ready = []) : Turns s v clock f ⟨s, [], .ok none, f, []⟩
  | absent {id : Nat} {rest : List Nat} (hready : s.ready = id :: rest)
      (hr : s.replays.get? id = none) : Turns s v clock f ⟨{ s with ready := rest }, [], .ok none, f, []⟩
  | dropped {id : Nat} {rest : List Nat} {r : Replay} (hready : s.ready = id :: rest)
      (hr : s.replays.get? id = some r) (hdead : r.dead = true) :
      Turns s v clock f
        ⟨{ s with ready := rest, replays := s.replays.erase id }, [], .ok none, f, []⟩
  | waits {id : Nat} {rest : List Nat} {r : Replay} {slice : Replay.Slice}
      {delivered : List (Recipient × Nat)} {finished : Except ReadError (Option Follower)}
      (hready : s.ready = id :: rest) (hr : s.replays.get? id = some r) (hdead : r.dead = false)
      (hslice : slice = r.process v clock f []) (hout : slice.outcome ≠ .ok true)
      (hfinished : ∀ follower, finished ≠ .ok (some follower)) :
      Turns s v clock f
        ⟨{ s with replays := s.replays.insert id slice.replay, ready := rest ++ [id] }, delivered,
          finished, slice.faults, slice.log⟩
  | completes {id : Nat} {rest : List Nat} {r : Replay} {slice : Replay.Slice}
      {delivered : List (Recipient × Nat)}
      (hready : s.ready = id :: rest) (hr : s.replays.get? id = some r) (hdead : r.dead = false)
      (hslice : slice = r.process v clock f []) (hout : slice.outcome = .ok true) :
      Turns s v clock f
        ⟨({ s with ready := rest, replays := s.replays.erase id } : Scheduler).remove
            r.follower.sub.toRecipient, delivered, .ok (some slice.replay.follower), slice.faults,
          slice.log⟩

theorem turns (s : Scheduler) (v : View) (clock : Clock) (f : Faults) :
    Turns s v clock f (s.process v clock f) := by
  rw [process]
  split
  · exact .idle ‹_›
  · rename_i id rest hready
    simp only
    split
    · exact .absent hready ‹_›
    · rename_i r hr
      split
      · exact .dropped hready hr ‹_›
      · rename_i hdead
        have hdead : r.dead = false := Bool.eq_false_iff.2 hdead
        cases hout : (r.process v clock f []).outcome with
        | error e =>
          refine .waits hready hr hdead rfl (fun h => ?_) fun _ h => ?_
          · cases hout.symm.trans h
          · cases h
        | ok b =>
          cases b with
          | false =>
            refine .waits hready hr hdead rfl (fun h => ?_) fun _ h => ?_
            · cases hout.symm.trans h
            · cases h
          | true => exact .completes hready hr hdead rfl hout

/-- A replay that is dead is dropped at its turn: nothing is read, delivered or logged. -/
theorem process_of_dead {s : Scheduler} {id : Nat} {rest : List Nat} {r : Replay}
    (hready : s.ready = id :: rest) (hr : s.replays.get? id = some r) (hdead : r.dead = true)
    (v : View) (clock : Clock) (f : Faults) :
    s.process v clock f
      = ⟨{ s with ready := rest, replays := s.replays.erase id }, [], .ok none, f, []⟩ := by
  simp only [process, hready, hr, hdead, if_true]

/-! ### The books agree -/

/-- Registry, replays and queue agree, and nothing is left over in any of them. -/
structure Tidy (s : Scheduler) : Prop where
  wf : s.Wf
  nodup : s.ready.Nodup
  stored : ∀ {id}, id ∈ s.ready → (s.replays.get? id).isSome
  populated : ByRecipient.Populated s.registry

theorem tidy_start {c : Config} : (start c).Tidy where
  wf := wf_start
  nodup := List.nodup_nil
  stored h := absurd h List.not_mem_nil
  populated _ _ h := by cases h

section

variable {s s' : Scheduler} {who x : Recipient}

theorem Tidy.mem_ready_iff (hs : s.Tidy) {id : Nat} :
    id ∈ s.ready ↔ (s.replays.get? id).isSome := by
  constructor
  · exact hs.stored
  · intro hid
    obtain ⟨r, hr⟩ := Option.isSome_iff_exists.1 hid
    exact hs.wf.queued hr

theorem Tidy.lt_nextId (hs : s.Tidy) {id : Nat} (hid : id ∈ s.ready) : id < s.nextId := by
  obtain ⟨r, hr⟩ := Option.isSome_iff_exists.1 (hs.stored hid)
  exact hs.wf.fresh hr

variable {gone : Recipient → Prop} [DecidablePred gone]

/-- A cut marks replays, it takes none away. -/
theorem Cut.isSome_replay (h : Cut gone s s') {id : Nat} :
    (s'.replays.get? id).isSome = (s.replays.get? id).isSome := by
  by_cases hgone : ∃ x, gone x ∧ s.idOf? x = some id
  · obtain ⟨x, hx, hid⟩ := hgone
    rw [h.replay_of_gone hx hid, Option.isSome_map]
  · rw [h.replay_of_stays fun x hx hid => hgone ⟨x, hx, hid⟩]

theorem Tidy.cut (hs : s.Tidy) (h : Cut gone s s')
    (hpopulated : ByRecipient.Populated s'.registry) : s'.Tidy where
  wf := hs.wf.cut h
  nodup := h.ready_eq ▸ hs.nodup
  stored hid := by
    rw [h.isSome_replay]
    exact hs.stored (h.ready_eq ▸ hid)
  populated := hpopulated

theorem populated_unregister {registry : KeyMap ConnId (KeyMap SubId Nat)}
    (h : ByRecipient.Populated registry) : ByRecipient.Populated (unregister registry who) := by
  rw [unregister]
  split
  · exact h
  · exact h.drop

theorem Tidy.remove (hs : s.Tidy) (who : Recipient) : (s.remove who).Tidy :=
  hs.cut cut_remove (registry_remove ▸ populated_unregister hs.populated)

theorem Tidy.closeConn (hs : s.Tidy) (conn : ConnId) : (s.closeConn conn).Tidy := by
  refine hs.cut cut_closeConn ?_
  rw [Scheduler.closeConn]
  split
  · exact hs.populated
  · rw [registry_foldl_kill]
    exact hs.populated.erase

theorem Tidy.enlist (hs : s.Tidy) {r : Replay} (hwf : (s.enlist r).Wf) : (s.enlist r).Tidy where
  wf := hwf
  nodup := List.nodup_cons.2 ⟨fun hid => Nat.lt_irrefl _ (hs.lt_nextId hid), hs.nodup⟩
  stored {id} hid := by
    show ((s.replays.insert s.nextId r).get? id).isSome
    rw [KeyMap.get?_insert]
    split
    · rfl
    · rename_i hne
      exact hs.stored ((List.mem_cons.1 hid).resolve_left hne)
  populated := ByRecipient.Populated.put hs.populated

theorem Tidy.add (hs : s.Tidy) (sub : Subscription) (watermark live : Nat) :
    (s.add sub watermark live).1.Tidy := by
  have hwf : (s.add sub watermark live).1.Wf := by
    rcases hs.wf.add_cases sub watermark live with ⟨-, hsame⟩ | ⟨-, hwf, -⟩
    · rw [hsame]
      exact hs.wf.remove _
    · exact hwf
  rw [add_eq] at hwf ⊢
  split at hwf
  · rename_i hfull
    rw [if_pos hfull]
    exact hs.remove _
  · rename_i hroom
    rw [if_neg hroom]
    exact (hs.remove _).enlist hwf

/-- The head of the queue leaves it, and so does its replay. -/
theorem Tidy.stored_erase (hs : s.Tidy) {id : Nat} {rest : List Nat} (hready : s.ready = id :: rest)
    {n : Nat} (hn : n ∈ rest) : ((s.replays.erase id).get? n).isSome := by
  have hnodup := hready ▸ hs.nodup
  rw [KeyMap.get?_erase, if_neg]
  · exact hs.stored (hready ▸ List.mem_cons_of_mem _ hn)
  · rintro rfl
    exact (List.nodup_cons.1 hnodup).1 hn

theorem Tidy.process (hs : s.Tidy) (v : View) (clock : Clock) (f : Faults) :
    (s.process v clock f).scheduler.Tidy := by
  have hwf := (hs.wf.process_cases v clock f).1
  have hturn := turns s v clock f
  generalize s.process v clock f = turn at hwf hturn ⊢
  cases hturn with
  | idle => exact hs
  | absent hready hr =>
    rename_i id rest
    have hid := hs.stored (hready ▸ List.mem_cons_self : id ∈ s.ready)
    rw [hr] at hid
    cases hid
  | dropped hready hr hdead =>
    exact ⟨hwf, (List.nodup_cons.1 (hready ▸ hs.nodup)).2, hs.stored_erase hready, hs.populated⟩
  | waits hready hr hdead hslice hout hfinished =>
    rename_i id rest r slice delivered finished
    refine ⟨hwf, ?nodup, ?stored, hs.populated⟩
    case nodup => exact (List.perm_append_singleton id rest).nodup_iff.2 (hready ▸ hs.nodup)
    case stored =>
      intro n hn
      show ((s.replays.insert id slice.replay).get? n).isSome
      rw [KeyMap.get?_insert]
      split
      · rfl
      · rename_i hne
        have hrest := (List.mem_append.1 hn).resolve_right fun h => hne (List.mem_singleton.1 h)
        exact hs.stored (hready ▸ List.mem_cons_of_mem _ hrest)
  | completes hready hr hdead hslice hout =>
    refine ⟨hwf, ?nodup, ?stored, registry_remove ▸ populated_unregister hs.populated⟩
    case nodup =>
      rw [ready_remove]
      exact (List.nodup_cons.1 (hready ▸ hs.nodup)).2
    case stored =>
      intro n hn
      rw [ready_remove] at hn
      rw [cut_remove.isSome_replay]
      exact hs.stored_erase hready hn

/-- A turn leaves the replays alone that do not have it. -/
theorem Tidy.get?_process_of_ne (hs : s.Tidy) {v : View} {clock : Clock} {f : Faults} {n : Nat}
    (hn : s.ready.head? ≠ some n) :
    (s.process v clock f).scheduler.replays.get? n = s.replays.get? n := by
  have hne : ∀ {id rest}, s.ready = id :: rest → n ≠ id := by
    rintro id rest hready rfl
    exact hn (congrArg List.head? hready)
  have hturn := turns s v clock f
  generalize s.process v clock f = turn at hturn ⊢
  cases hturn with
  | idle => rfl
  | absent => rfl
  | dropped hready => exact KeyMap.get?_erase.trans (if_neg (hne hready))
  | waits hready => exact KeyMap.get?_insert.trans (if_neg (hne hready))
  | completes hready hr hdead =>
    rename_i id rest r slice delivered hslice hout
    -- the name that goes is that of the head
    have hid : ({ s with ready := rest, replays := s.replays.erase id } : Scheduler).idOf?
        r.follower.sub.toRecipient = some id := hs.wf.registered hr hdead
    have hother : some id ≠ some n := fun h => hne hready (Option.some.inj h).symm
    rw [get?_replays_remove, hid, if_neg hother]
    exact KeyMap.get?_erase.trans (if_neg (hne hready))

/-- A replay that is complete was served under its name, and goes with its name and nothing else. -/
theorem Tidy.completed (hs : s.Tidy) {v : View} {clock : Clock} {f : Faults} {follower : Follower}
    (h : (s.process v clock f).finished = .ok (some follower)) :
    ∃ id, s.ready.head? = some id ∧ s.idOf? follower.sub.toRecipient = some id
      ∧ (∀ who, (s.process v clock f).scheduler.idOf? who
        = if who = follower.sub.toRecipient then none else s.idOf? who)
      ∧ ∀ n, (s.process v clock f).scheduler.replays.get? n
        = if n = id then none else s.replays.get? n := by
  have hothers : ∀ n, s.ready.head? ≠ some n →
      (s.process v clock f).scheduler.replays.get? n = s.replays.get? n := fun n => hs.get?_process_of_ne
  have hturn := turns s v clock f
  generalize s.process v clock f = turn at h hturn hothers ⊢
  cases hturn with
  | idle => cases h
  | absent => cases h
  | dropped => cases h
  | waits hready hr hdead hslice hout hfinished => exact absurd h (hfinished follower)
  | completes hready hr hdead hslice hout =>
    rename_i id rest r slice delivered
    cases h
    have hfollower : slice.replay.follower = r.follower :=
      hslice ▸ (Replay.served (hs.wf.sound hr)).follower_eq
    rw [hfollower]
    refine ⟨id, congrArg List.head? hready, hs.wf.registered hr hdead, fun who => idOf?_remove,
      fun n => ?_⟩
    by_cases hn : n = id
    · rw [if_pos hn, get?_replays_remove, hn, KeyMap.get?_erase, if_pos rfl, Option.map_none, ite_self]
    · rw [if_neg hn]
      refine hothers n fun hhead => hn ?_
      rw [hready] at hhead
      exact (Option.some.inj hhead).symm

/-! ### Calls -/

/-- What a scheduler is asked to do. -/
inductive Call where
  | add (sub : Subscription) (watermark live : Nat)
  | remove (who : Recipient)
  | closeConn (conn : ConnId)
  | process (v : View) (clock : Clock) (f : Faults)

/-- The scheduler after a call. -/
def run (s : Scheduler) : Call → Scheduler
  | .add sub watermark live => (s.add sub watermark live).1
  | .remove who => s.remove who
  | .closeConn conn => s.closeConn conn
  | .process v clock f => (s.process v clock f).scheduler

/-- The scheduler after calls, from the start. -/
def after (config : Config) (calls : List Call) : Scheduler := calls.foldl run (start config)

/-- Calls that take a recipient's subscription away or put another in its place. -/
def Call.Ends (who : Recipient) : Call → Prop
  | .add sub _ _ => sub.toRecipient = who
  | .remove x => x = who
  | .closeConn conn => who.conn = conn
  | .process _ _ _ => False

theorem Tidy.run (hs : s.Tidy) (c : Call) : (s.run c).Tidy := by
  cases c with
  | add sub watermark live => exact hs.add sub watermark live
  | remove who => exact hs.remove who
  | closeConn conn => exact hs.closeConn conn
  | process v clock f => exact hs.process v clock f

theorem Tidy.foldl_run (hs : s.Tidy) (calls : List Call) : (calls.foldl Scheduler.run s).Tidy := by
  induction calls generalizing s with
  | nil => exact hs
  | cons c rest ih => exact ih (hs.run c)

theorem tidy_after {config : Config} {calls : List Call} : (after config calls).Tidy :=
  tidy_start.foldl_run calls

/-! ### Replays that have lost their name -/

/-- The number is taken, and what is stored under it, if anything still is, is a replay that is dead. -/
structure Spent (s : Scheduler) (id : Nat) (r : Replay) : Prop where
  dead : r.dead = true
  taken : id < s.nextId
  kept : s.replays.get? id = none ∨ s.replays.get? id = some r

variable {id : Nat} {r : Replay}

/-- A number that is spent is nobody's. -/
theorem Spent.not_idOf? (h : s.Spent id r) (hs : s.Wf) : s.idOf? x ≠ some id := by
  intro hid
  obtain ⟨r', hr', hdead, -⟩ := hs.serves hid
  rcases h.kept with hnone | hsome
  · cases hnone.symm.trans hr'
  · cases hsome.symm.trans hr'
    cases h.dead.symm.trans hdead

theorem Spent.cut (h : s.Spent id r) (hs : s.Wf) (hcut : Cut gone s s') : s'.Spent id r where
  dead := h.dead
  taken := hcut.nextId_eq ▸ h.taken
  kept := by
    rw [hcut.replay_of_stays fun x _ => h.not_idOf? hs]
    exact h.kept

theorem Spent.add (h : s.Spent id r) (hs : s.Wf) (sub : Subscription) (watermark live : Nat) :
    (s.add sub watermark live).1.Spent id r := by
  have hcut : (s.remove sub.toRecipient).Spent id r := h.cut hs cut_remove
  rw [add_eq]
  split
  · exact hcut
  · refine ⟨h.dead, Nat.lt_succ_of_lt hcut.taken, ?_⟩
    -- the new replay has a number of its own
    have hne : id ≠ (s.remove sub.toRecipient).nextId := Nat.ne_of_lt hcut.taken
    show ((s.remove sub.toRecipient).replays.insert _ _).get? id = none ∨ _
    rw [enlist, KeyMap.get?_insert, if_neg hne]
    exact hcut.kept

theorem nextId_process {v : View} {clock : Clock} {f : Faults} :
    (s.process v clock f).scheduler.nextId = s.nextId := by
  have hturn := turns s v clock f
  generalize s.process v clock f = turn at hturn ⊢
  cases hturn with
  | idle => rfl
  | absent => rfl
  | dropped => rfl
  | waits => rfl
  | completes => exact nextId_remove

theorem Spent.process_of_head (h : s.Spent id r) (hs : s.Tidy) (hhead : s.ready.head? = some id)
    (v : View) (clock : Clock) (f : Faults) : s.process v clock f
      = ⟨{ s with ready := s.ready.tail, replays := s.replays.erase id }, [], .ok none, f, []⟩ := by
  obtain ⟨rest, hready⟩ := List.head?_eq_some_iff.1 hhead
  have hstored := hs.stored (hready ▸ List.mem_cons_self : id ∈ s.ready)
  have hr : s.replays.get? id = some r := by
    refine h.kept.resolve_left fun hnone => ?_
    rw [hnone] at hstored
    cases hstored
  rw [process_of_dead hready hr h.dead, hready, List.tail_cons]

theorem Spent.process (h : s.Spent id r) (hs : s.Tidy) (v : View) (clock : Clock) (f : Faults) :
    (s.process v clock f).scheduler.Spent id r := by
  refine ⟨h.dead, nextId_process.symm ▸ h.taken, ?_⟩
  by_cases hhead : s.ready.head? = some id
  · rw [h.process_of_head hs hhead]
    exact .inl (KeyMap.get?_erase.trans (if_pos rfl))
  · rw [hs.get?_process_of_ne hhead]
    exact h.kept

theorem Spent.run (h : s.Spent id r) (hs : s.Tidy) (c : Call) : (s.run c).Spent id r := by
  cases c with
  | add sub watermark live => exact h.add hs.wf sub watermark live
  | remove who => exact h.cut hs.wf cut_remove
  | closeConn conn => exact h.cut hs.wf cut_closeConn
  | process v clock f => exact h.process hs v clock f

theorem Spent.foldl_run (h : s.Spent id r) (hs : s.Tidy) (calls : List Call) :
    (calls.foldl Scheduler.run s).Spent id r := by
  induction calls generalizing s with
  | nil => exact h
  | cons c rest ih => exact ih (h.run hs c) (hs.run c)

/-- A cut spends the numbers of those who are gone. -/
theorem Cut.spent (h : Cut gone s s') (hs : s.Wf) (hgone : gone who) (hid : s.idOf? who = some id)
    (hr : s.replays.get? id = some r) : s'.Spent id r.killed where
  dead := rfl
  taken := h.nextId_eq ▸ hs.fresh hr
  kept := by
    rw [h.replay_of_gone hgone hid, hr]
    exact .inr rfl

/-- Calls that end a subscription spend its number, also a new subscription that is refused. -/
theorem Tidy.spent (hs : s.Tidy) (hid : s.idOf? who = some id) (hr : s.replays.get? id = some r)
    {c : Call} (hc : c.Ends who) : (s.run c).Spent id r.killed := by
  cases c with
  | add sub watermark live =>
    have hcut : (s.remove sub.toRecipient).Spent id r.killed :=
      cut_remove.spent hs.wf (show who = sub.toRecipient from Eq.symm hc) hid hr
    have hadd := hcut.add (hs.wf.remove _) sub watermark live
    rw [add_remove] at hadd
    exact hadd
  | remove x => exact cut_remove.spent hs.wf (show who = x from Eq.symm hc) hid hr
  | closeConn conn => exact cut_closeConn.spent hs.wf (show who.conn = conn from hc) hid hr
  | process v clock f => exact hc.elim

/-! ### After any calls -/

/-- After any calls the queue lists the stored replays, once each; the registry gives every name a
replay that is stored, alive and its own, every replay that is alive stands in it under its own name,
and it keeps no connection without names.  A replay whose name is taken away or given to another never
has a slice again: it stays as it was but for being dead, until its next turn drops it.  A replay that
is complete goes with its own name and leaves all others as they are. -/
theorem agreement_after {config : Config} {calls : List Call} :
    ((after config calls).ready.Nodup
      ∧ ∀ id, id ∈ (after config calls).ready ↔ ((after config calls).replays.get? id).isSome)
    ∧ (∀ who id, (after config calls).idOf? who = some id →
      ∃ r, (after config calls).replays.get? id = some r ∧ r.dead = false
        ∧ r.follower.sub.toRecipient = who)
    ∧ (∀ id r, (after config calls).replays.get? id = some r → r.dead = false →
      (after config calls).idOf? r.follower.sub.toRecipient = some id)
    ∧ (∀ conn subs, (after config calls).registry.get? conn = some subs → subs.isEmpty = false)
    ∧ (∀ who id r c later, (after config calls).idOf? who = some id →
      (after config calls).replays.get? id = some r → Call.Ends who c →
      ((after config (calls ++ c :: later)).replays.get? id = none
          ∨ (after config (calls ++ c :: later)).replays.get? id = some r.killed)
        ∧ ((after config (calls ++ c :: later)).ready.head? = some id → ∀ v clock f,
          (after config (calls ++ c :: later)).process v clock f
            = ⟨{ after config (calls ++ c :: later) with
                ready := (after config (calls ++ c :: later)).ready.tail
                replays := (after config (calls ++ c :: later)).replays.erase id },
              [], .ok none, f, []⟩))
    ∧ ∀ v clock f follower, ((after config calls).process v clock f).finished = .ok (some follower) →
      ∃ id, (after config calls).ready.head? = some id
        ∧ (after config calls).idOf? follower.sub.toRecipient = some id
        ∧ (∀ who, ((after config calls).process v clock f).scheduler.idOf? who
          = if who = follower.sub.toRecipient then none else (after config calls).idOf? who)
        ∧ ∀ n, ((after config calls).process v clock f).scheduler.replays.get? n
          = if n = id then none else (after config calls).replays.get? n := by
  have hs : (after config calls).Tidy := tidy_after
  refine ⟨⟨hs.nodup, fun id => hs.mem_ready_iff⟩, fun who id => hs.wf.serves,
    fun id r => hs.wf.registered, hs.populated, ?_, fun v clock f follower => hs.completed⟩
  intro who id r c later hid hr hc
  have htidy : (after config (calls ++ c :: later)).Tidy := tidy_after
  have hspent : (after config (calls ++ c :: later)).Spent id r.killed := by
    rw [after, List.foldl_append, List.foldl_cons]
    exact (hs.spent hid hr hc).foldl_run (hs.run c) later
  exact ⟨hspent.kept, fun hhead => hspent.process_of_head htidy hhead⟩

end

/-- A subscription is asked for again before its replay has had a turn; the new replay has one. -/
def askedAgain : List Call :=
  [.add ⟨Replay.asker, ⟨[Filter.unrestricted]⟩⟩ 0 0, .add ⟨Replay.asker, ⟨[]⟩⟩ 0 0,
   .process .empty .exhausted .none]

/-- The replay that was asked for first is next, and its turn only drops it. -/
theorem process_askedAgain :
    (after default askedAgain).ready.head? = some 0 ∧ ∀ v clock f,
      (after default askedAgain).process v clock f
        = ⟨{ after default askedAgain with
            ready := (after default askedAgain).ready.tail
            replays := (after default askedAgain).replays.erase 0 }, [], .ok none, f, []⟩ := by
  have hhead : (after default askedAgain).ready.head? = some 0 := by decide +kernel
  obtain ⟨-, -, -, -, hended, -⟩ :=
    @agreement_after default [.add ⟨Replay.asker, ⟨[Filter.unrestricted]⟩⟩ 0 0]
  exact ⟨hhead, (hended Replay.asker 0 _ (.add ⟨Replay.asker, ⟨[]⟩⟩ 0 0)
    [.process .empty .exhausted .none] rfl rfl rfl).2 hhead⟩

end Scheduler

end EventRelay
