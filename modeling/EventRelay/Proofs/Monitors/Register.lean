import EventRelay.Proofs.Monitors.Dispatch
import EventRelay.Proofs.Replay.Delivery
import Mathlib.Data.List.Nodup
import Mathlib.Data.List.Induction
/-!
# The naive matcher

A plain list of who is followed, and from which watermark, shows a new event to everybody on it.  The
monitors do the same with their handles, buckets and marks: after any calls whose seqs ascend, an event
under the next larger seq goes to those that the list finds for it, each once.

The watermark in a monitor moves with what its subscription has got, and the one in the list does not;
they are on the same side of every seq still to come, and that is all that a dispatch asks of them.

Main statements: `Follows.run` (what a call keeps) and `dispatch_perm_naive`.
-/

namespace EventRelay

namespace ByRecipient

variable {β : Type} {m : ByRecipient β}

/-- How many belong to a connection, counted in a list of all. -/
theorem size_eq_countP {l : List Recipient} (hl : l.Nodup) (hmem : ∀ who, who ∈ l ↔ (get? m who).isSome)
    (conn : ConnId) :
    ((KeyMap.get? m conn).map KeyMap.size).getD 0 = l.countP fun who => who.conn = conn := by
  have hnodup : ((l.filter fun who => who.conn = conn).map Recipient.subId).Nodup := by
    refine List.Nodup.map_on (fun a ha b hb heq => ?_) (hl.filter _)
    have hca := of_decide_eq_true (List.mem_filter.1 ha).2
    have hcb := of_decide_eq_true (List.mem_filter.1 hb).2
    exact Recipient.eq_iff.2 ⟨hca.trans hcb.symm, heq⟩
  -- the names in the map and the names in the list are the same
  have hperm : (names m conn).Perm ((l.filter fun who => who.conn = conn).map Recipient.subId) := by
    refine (List.perm_ext_iff_of_nodup nodup_names hnodup).2 fun id => ?_
    rw [mem_names, ← hmem, List.mem_map]
    constructor
    · intro hin
      exact ⟨⟨conn, id⟩, List.mem_filter.2 ⟨hin, decide_eq_true rfl⟩, rfl⟩
    · rintro ⟨who, hpicked, rfl⟩
      obtain ⟨hin, hw⟩ := List.mem_filter.1 hpicked
      cases of_decide_eq_true hw
      exact hin
  calc ((KeyMap.get? m conn).map KeyMap.size).getD 0
      = (names m conn).length := length_names.symm
    _ = ((l.filter fun who => who.conn = conn).map Recipient.subId).length := hperm.length_eq
    _ = l.countP fun who => who.conn = conn := by
      rw [List.length_map, List.countP_eq_length_filter]

end ByRecipient

namespace Monitors

/-! ### Calls -/

/-- A call that the monitors answer. -/
inductive Call where
  | install (follower : Follower)
  | remove (who : Recipient)
  | closeConn (conn : ConnId)
  | dispatch (seq : Nat) (e : Event)

/-- The monitors after a call. -/
def run (m : Monitors) : Call → Monitors
  | .install follower => (m.install follower).1
  | .remove who => m.remove who
  | .closeConn conn => m.closeConn conn
  | .dispatch seq e => (m.dispatch seq e).1

/-- The monitors after calls, from the start. -/
def after (max : Nat) (calls : List Call) : Monitors := calls.foldl run (start max)

def Call.seq? : Call → Option Nat
  | .dispatch seq _ => some seq
  | _ => none

/-- The seqs that events have been dispatched under. -/
def seqsOf (calls : List Call) : List Nat := calls.filterMap Call.seq?

/-- The last seq that an event has been dispatched under. -/
def lastOf (calls : List Call) : Nat := (seqsOf calls).getLast?.getD 0

/-! ### The list of who is followed -/

/-- The list without those that a test picks. -/
def strike (fs : List Follower) (gone : Recipient → Bool) : List Follower :=
  fs.filter fun f => !gone f.sub.toRecipient

/-- The list after a call.  A subscription is put on it in place of one of the same name, if its
connection has fewer on it than it may; it stays until it is removed or its connection is closed. -/
def note (max : Nat) (fs : List Follower) : Call → List Follower
  | .install follower =>
    let rest := strike fs (· = follower.sub.toRecipient)
    if max ≤ rest.countP (·.sub.conn = follower.sub.conn) then rest else follower :: rest
  | .remove who => strike fs (· = who)
  | .closeConn conn => strike fs (·.conn = conn)
  | .dispatch _ _ => fs

/-- Who is followed after calls, each from the watermark it was installed with. -/
def register (max : Nat) (calls : List Call) : List Follower := calls.foldl (note max) []

/-- Who is to get an event: everybody on the list that accepts it and is behind its seq. -/
def naive (fs : List Follower) (seq : Nat) (e : Event) : List Recipient :=
  (fs.filter fun f => f.watermark < seq && f.sub.filters.accepts e).map (·.sub.toRecipient)

/-! ### What a call keeps -/

/-- The monitors follow those on a list, as far as seqs above `n` can tell. -/
structure Follows (m : Monitors) (max : Nat) (fs : List Follower) (n : Nat) : Prop where
  wf : m.Wf
  settled : m.Settled n
  maxSubs_eq : m.maxSubsPerConnection = max
  nodup : (fs.map (·.sub.toRecipient)).Nodup
  listed : ∀ {who monitor}, m.get? who = some monitor → ∃ f ∈ fs, f.sub.toRecipient = who
  followed : ∀ {f}, f ∈ fs → ∃ monitor, m.get? f.sub.toRecipient = some monitor
    ∧ monitor.follower.sub = f.sub
    ∧ ∀ seq, n < seq → (monitor.follower.watermark < seq ↔ f.watermark < seq)

variable {m : Monitors} {max n : Nat} {fs : List Follower}

theorem follows_start : (start max).Follows max [] 0 where
  wf := wf_start
  settled := settled_start
  maxSubs_eq := rfl
  nodup := .nil
  listed h := by cases h
  followed h := absurd h List.not_mem_nil

theorem mem_strike {gone : Recipient → Bool} {f : Follower} :
    f ∈ strike fs gone ↔ f ∈ fs ∧ gone f.sub.toRecipient = false := by
  rw [strike, List.mem_filter, Bool.not_eq_true']

theorem nodup_strike {gone : Recipient → Bool} (h : (fs.map (·.sub.toRecipient)).Nodup) :
    ((strike fs gone).map (·.sub.toRecipient)).Nodup :=
  h.sublist (List.filter_sublist.map _)

/-- Some are not followed any more, and nobody else is affected. -/
theorem Follows.strike (h : m.Follows max fs n) {m' : Monitors} {gone : Recipient → Bool}
    (hwf : m'.Wf) (hsettled : m'.Settled n) (hmax : m'.maxSubsPerConnection = m.maxSubsPerConnection)
    (hget : ∀ who, m'.get? who = if gone who then none else m.get? who) :
    m'.Follows max (strike fs gone) n where
  wf := hwf
  settled := hsettled
  maxSubs_eq := hmax.trans h.maxSubs_eq
  nodup := nodup_strike h.nodup
  listed := by
    intro who monitor hwho
    rw [hget] at hwho
    split at hwho
    · cases hwho
    · rename_i hstays
      obtain ⟨f, hf, rfl⟩ := h.listed hwho
      exact ⟨f, mem_strike.2 ⟨hf, Bool.eq_false_iff.2 hstays⟩, rfl⟩
  followed := by
    intro f hf
    obtain ⟨hf, hstays⟩ := mem_strike.1 hf
    rw [hget, hstays, if_neg Bool.false_ne_true]
    exact h.followed hf

theorem maxSubs_foldl_removeFilter {ps : List (Filter × Nat)} :
    (ps.foldl removeFilter m).maxSubsPerConnection = m.maxSubsPerConnection := by
  induction ps generalizing m with
  | nil => rfl
  | cons p rest ih => exact ih

theorem maxSubs_foldl_addFilter {who : Recipient} {watermark : Nat} {ps : List (Filter × Nat)} :
    (ps.foldl (addFilter who watermark) m).maxSubsPerConnection = m.maxSubsPerConnection := by
  induction ps generalizing m with
  | nil => rfl
  | cons p rest ih => exact ih

theorem maxSubs_remove {who : Recipient} :
    (m.remove who).maxSubsPerConnection = m.maxSubsPerConnection := by
  cases h : m.get? who with
  | none => rw [remove_eq_self h]
  | some monitor =>
    obtain ⟨subs, -, -, hremove⟩ := remove_eq h
    rw [hremove, uninstall, maxSubs_foldl_removeFilter]

theorem maxSubs_closeConn {conn : ConnId} :
    (m.closeConn conn).maxSubsPerConnection = m.maxSubsPerConnection := by
  cases h : m.conns.get? conn with
  | none => rw [closeConn_eq_self h]
  | some subs => rw [closeConn_eq h, maxSubs_foldl_removeFilter]

theorem Follows.remove (h : m.Follows max fs n) (who : Recipient) :
    (m.remove who).Follows max (Monitors.strike fs (· = who)) n :=
  h.strike (h.wf.remove who) (h.settled.remove h.wf who) maxSubs_remove
    (fun x => by simp only [get?_remove, decide_eq_true_eq])

theorem Follows.closeConn (h : m.Follows max fs n) (conn : ConnId) :
    (m.closeConn conn).Follows max (Monitors.strike fs (·.conn = conn)) n :=
  h.strike (h.wf.closeConn conn) (h.settled.closeConn h.wf conn) maxSubs_closeConn
    (fun x => by simp only [get?_closeConn, decide_eq_true_eq])

theorem connSubs_eq {conn : ConnId} :
    m.connSubs conn = ((m.conns.get? conn).map KeyMap.size).getD 0 := by
  rw [connSubs]
  cases m.conns.get? conn with
  | none => rfl
  | some subs => rfl

/-- The list counts the subscriptions of a connection as the monitors do. -/
theorem Follows.connSubs_eq (h : m.Follows max fs n) (conn : ConnId) :
    m.connSubs conn = fs.countP (·.sub.conn = conn) := by
  rw [Monitors.connSubs_eq, ByRecipient.size_eq_countP h.nodup ?_ conn, List.countP_map]
  · rfl
  · intro who
    rw [List.mem_map, Option.isSome_iff_exists]
    constructor
    · rintro ⟨f, hf, rfl⟩
      obtain ⟨monitor, hmonitor, -⟩ := h.followed hf
      exact ⟨monitor, hmonitor⟩
    · rintro ⟨monitor, hmonitor⟩
      exact h.listed hmonitor

/-- What an installation does to a connection that has room. -/
theorem get?_install {follower : Follower}
    (hroom : ¬ (m.remove follower.sub.toRecipient).maxSubsPerConnection
      ≤ (m.remove follower.sub.toRecipient).connSubs follower.sub.conn) {who : Recipient} :
    (m.install follower).1.get? who
      = if who = follower.sub.toRecipient then some (m.installed follower)
        else (m.remove follower.sub.toRecipient).get? who := by
  simp only [install]
  rw [if_neg hroom]
  exact ByRecipient.get?_put

theorem maxSubs_install {follower : Follower} :
    (m.install follower).1.maxSubsPerConnection = m.maxSubsPerConnection := by
  simp only [install]
  split
  · exact maxSubs_remove
  · exact maxSubs_foldl_addFilter.trans maxSubs_remove

theorem Follows.install (h : m.Follows max fs n) (follower : Follower) :
    (m.install follower).1.Follows max (note max fs (.install follower)) n := by
  have hrest := h.remove follower.sub.toRecipient
  rw [note]
  by_cases hroom : (m.remove follower.sub.toRecipient).maxSubsPerConnection
      ≤ (m.remove follower.sub.toRecipient).connSubs follower.sub.conn
  · rw [hrest.maxSubs_eq, hrest.connSubs_eq] at hroom
    have hsame : (m.install follower).1 = m.remove follower.sub.toRecipient := by
      simp only [Monitors.install]
      rw [if_pos (by rwa [hrest.maxSubs_eq, hrest.connSubs_eq])]
    rw [if_pos hroom, hsame]
    exact hrest
  have hget := @get?_install m follower hroom
  rw [hrest.maxSubs_eq, hrest.connSubs_eq] at hroom
  rw [if_neg hroom]
  have hnew : ∀ {f}, f ∈ Monitors.strike fs (· = follower.sub.toRecipient) →
      f.sub.toRecipient ≠ follower.sub.toRecipient :=
    fun hf => of_decide_eq_false (mem_strike.1 hf).2
  refine {
    wf := h.wf.install follower
    settled := h.settled.install h.wf follower
    maxSubs_eq := maxSubs_install.trans h.maxSubs_eq
    nodup := ?nodup
    listed := ?listed
    followed := ?followed }
  case nodup =>
    refine List.nodup_cons.2 ⟨fun hmem => ?_, hrest.nodup⟩
    obtain ⟨f, hf, heq⟩ := List.mem_map.1 hmem
    exact hnew hf heq
  case listed =>
    intro who monitor hwho
    rw [hget] at hwho
    split at hwho
    · rename_i heq
      exact ⟨follower, List.mem_cons_self, heq.symm⟩
    · obtain ⟨f, hf, heq⟩ := hrest.listed hwho
      exact ⟨f, List.mem_cons_of_mem _ hf, heq⟩
  case followed =>
    intro f hf
    rcases List.mem_cons.1 hf with rfl | hf
    · exact ⟨m.installed f, by rw [hget, if_pos rfl], rfl, fun _ _ => Iff.rfl⟩
    · rw [hget, if_neg (hnew hf)]
      exact hrest.followed hf

theorem maxSubs_visit {seq : Nat} {e : Event} {state : Monitors × List Recipient} {h : Nat} :
    (visit seq e state h).1.maxSubsPerConnection = state.1.maxSubsPerConnection := by
  rw [visit]
  split
  · rfl
  · split
    · rfl
    · split
      · rfl
      · simp only
        split
        · rfl
        · split <;> rfl

theorem maxSubs_dispatch {seq : Nat} {e : Event} :
    (m.dispatch seq e).1.maxSubsPerConnection = m.maxSubsPerConnection := by
  have key : ∀ (hs : List Nat) (state : Monitors × List Recipient),
      (hs.foldl (visit seq e) state).1.maxSubsPerConnection = state.1.maxSubsPerConnection := by
    intro hs
    induction hs with
    | nil => exact fun _ => rfl
    | cons h rest ih => exact fun state => (ih _).trans maxSubs_visit
  rw [dispatch_eq]
  exact key _ _

/-- The watermark of who gets an event moves to its seq, which the seqs to come are above. -/
theorem Follows.dispatch (h : m.Follows max fs n) {seq : Nat} (hlt : n < seq) (e : Event) :
    (m.dispatch seq e).1.Follows max fs seq := by
  have hd := h.wf.dispatch h.settled hlt e
  refine {
    wf := hd.wf
    settled := hd.settled
    maxSubs_eq := maxSubs_dispatch.trans h.maxSubs_eq
    nodup := h.nodup
    listed := ?listed
    followed := ?followed }
  case listed =>
    intro who monitor hwho
    rw [hd.get?_eq] at hwho
    split at hwho
    · obtain ⟨monitor, hmonitor, -⟩ := Option.map_eq_some_iff.1 hwho
      exact h.listed hmonitor
    · exact h.listed hwho
  case followed =>
    intro f hf
    obtain ⟨monitor, hmonitor, hsub, hside⟩ := h.followed hf
    rw [hd.get?_eq]
    split
    · rename_i hgot
      obtain ⟨monitor', hmonitor', hbehind, -⟩ := hd.mem_iff.1 hgot
      cases hmonitor.symm.trans hmonitor'
      refine ⟨monitor.moved seq, by rw [hmonitor, Option.map_some], hsub, fun seq' hlt' => ?_⟩
      -- it was behind the seq before, and so was the watermark on the list
      have hlisted := (hside seq hlt).1 hbehind
      exact iff_of_true hlt' (Nat.lt_trans hlisted hlt')
    · exact ⟨monitor, hmonitor, hsub, fun seq' hlt' => hside seq' (Nat.lt_trans hlt hlt')⟩

/-- Nothing is behind the seq 0, so nothing happens under it. -/
theorem dispatch_zero (m : Monitors) (e : Event) : m.dispatch 0 e = (m, []) := by
  have hvisit : ∀ (state : Monitors × List Recipient) (h : Nat), visit 0 e state h = state := by
    intro state h
    rw [visit]
    split
    · rfl
    · split
      · rfl
      · rw [if_pos (.inl (Nat.zero_le _))]
  rw [dispatch_eq]
  exact List.foldl_fixed' (fun h => hvisit _ h) _

/-! ### What calls keep -/

theorem seqsOf_append {calls calls' : List Call} :
    seqsOf (calls ++ calls') = seqsOf calls ++ seqsOf calls' := List.filterMap_append

/-- A seq above all before is above the last one, unless it is 0. -/
theorem lastOf_lt {calls : List Call} {seq : Nat} (h : (seqsOf calls ++ [seq]).Pairwise (· < ·))
    (hpos : 0 < seq) : lastOf calls < seq := by
  rw [lastOf]
  cases hlast : (seqsOf calls).getLast? with
  | none => exact hpos
  | some last =>
    exact (List.pairwise_append.1 h).2.2 _ (List.mem_of_getLast? hlast) _ List.mem_cons_self

theorem lastOf_concat {calls : List Call} {c : Call} :
    lastOf (calls ++ [c]) = c.seq?.getD (lastOf calls) := by
  rw [lastOf, seqsOf_append]
  cases hseq : c.seq? with
  | none => simp [seqsOf, hseq, lastOf]
  | some seq => simp [seqsOf, hseq]

/-- A call under a seq that goes on ascending keeps the monitors and the list together. -/
theorem Follows.run {calls : List Call} (h : m.Follows max fs (lastOf calls)) {c : Call}
    (hseqs : (seqsOf (calls ++ [c])).Pairwise (· < ·)) :
    (m.run c).Follows max (note max fs c) (lastOf (calls ++ [c])) := by
  rw [lastOf_concat]
  cases c with
  | install follower => exact h.install follower
  | remove who => exact h.remove who
  | closeConn conn => exact h.closeConn conn
  | dispatch seq e =>
    rcases Nat.eq_zero_or_pos seq with rfl | hpos
    · -- 0 can only be the first seq of all
      have hnone : lastOf calls = 0 := by
        rw [lastOf]
        cases hlast : (seqsOf calls).getLast? with
        | none => rfl
        | some last =>
          rw [seqsOf_append] at hseqs
          exact absurd ((List.pairwise_append.1 hseqs).2.2 _ (List.mem_of_getLast? hlast) 0
            List.mem_cons_self) (Nat.not_lt_zero _)
      rw [Monitors.run, dispatch_zero, ← hnone]
      exact h
    · rw [seqsOf_append] at hseqs
      exact h.dispatch (lastOf_lt hseqs hpos) e

theorem follows_after {calls : List Call} (hseqs : (seqsOf calls).Pairwise (· < ·)) :
    (after max calls).Follows max (register max calls) (lastOf calls) := by
  induction calls using List.reverseRecOn with
  | nil => exact follows_start
  | append_singleton calls c ih =>
    have hbefore : (seqsOf calls).Pairwise (· < ·) := by
      rw [seqsOf_append] at hseqs
      exact (List.pairwise_append.1 hseqs).1
    rw [after, register, List.foldl_append, List.foldl_append]
    exact (ih hbefore).run hseqs

/-! ### Who gets an event -/

theorem Follows.mem_dispatch_iff (h : m.Follows max fs n) {seq : Nat} (hlt : n < seq) {e : Event}
    {who : Recipient} : who ∈ (m.dispatch seq e).2 ↔ who ∈ naive fs seq e := by
  rw [(h.wf.dispatch h.settled hlt e).mem_iff, naive, List.mem_map]
  constructor
  · rintro ⟨monitor, hwho, hbehind, haccepts⟩
    obtain ⟨f, hf, rfl⟩ := h.listed hwho
    obtain ⟨monitor', hmonitor', hsub, hside⟩ := h.followed hf
    cases hwho.symm.trans hmonitor'
    rw [hsub] at haccepts
    refine ⟨f, List.mem_filter.2 ⟨hf, ?_⟩, rfl⟩
    rw [haccepts, Bool.and_true, decide_eq_true_eq]
    exact (hside seq hlt).1 hbehind
  · rintro ⟨f, hf, rfl⟩
    obtain ⟨hf, htest⟩ := List.mem_filter.1 hf
    rw [Bool.and_eq_true, decide_eq_true_eq] at htest
    obtain ⟨monitor, hmonitor, hsub, hside⟩ := h.followed hf
    refine ⟨monitor, hmonitor, (hside seq hlt).2 htest.1, ?_⟩
    rw [hsub]
    exact htest.2

theorem Follows.nodup_naive (h : m.Follows max fs n) (seq : Nat) (e : Event) :
    (naive fs seq e).Nodup :=
  h.nodup.sublist (List.filter_sublist.map _)

/-- A dispatch finds whom the naive matcher finds: after any calls under ascending seqs, an event under
the next larger seq goes, once, to everybody who is followed, was installed with a watermark below the
seq and accepts the event, and to nobody else. -/
theorem dispatch_perm_naive {calls : List Call} {seq : Nat} {e : Event}
    (hseqs : (seqsOf (calls ++ [.dispatch seq e])).Pairwise (· < ·)) :
    ((after max calls).dispatch seq e).2.Perm (naive (register max calls) seq e)
      ∧ (naive (register max calls) seq e).Nodup := by
  rw [seqsOf_append] at hseqs
  have h : (after max calls).Follows max (register max calls) (lastOf calls) :=
    follows_after (List.pairwise_append.1 hseqs).1
  refine ⟨?_, h.nodup_naive seq e⟩
  rcases Nat.eq_zero_or_pos seq with rfl | hpos
  · rw [dispatch_zero, naive, List.filter_eq_nil_iff.2 (fun f _ => by simp)]
    exact .nil
  · have hlt := lastOf_lt hseqs hpos
    exact (List.perm_ext_iff_of_nodup (h.wf.dispatch h.settled hlt e).nodup (h.nodup_naive seq e)).2
      fun _ => h.mem_dispatch_iff hlt

/-- Somebody who asks for notes, and twice for everything of one author, is followed from the seq 1 on,
gets an event, and somebody else goes. -/
def sampleCalls : List Call :=
  [.install ⟨⟨Replay.asker, ⟨[{ Filter.unrestricted with kinds := some (.ofList [1]), indexOnly := true },
      { Filter.unrestricted with authors := some (.ofList [(Replay.tagged 0x22 10 []).author]) }]⟩⟩, 1⟩,
   .dispatch 2 (Replay.tagged 0x22 10 [0x61]), .closeConn 7]

/-- Two of its filters accept the next event, and the subscription gets it once. -/
theorem dispatch_sampleCalls :
    ((after 1 sampleCalls).dispatch 5 (Replay.tagged 0x33 20 [0x61])).2 = [Replay.asker] := by
  obtain ⟨hperm, -⟩ := @dispatch_perm_naive 1 sampleCalls 5 (Replay.tagged 0x33 20 [0x61]) (by decide)
  have hnaive : naive (register 1 sampleCalls) 5 (Replay.tagged 0x33 20 [0x61]) = [Replay.asker] := by
    decide +kernel
  rw [hnaive] at hperm
  exact List.perm_singleton.1 hperm

end Monitors

end EventRelay
