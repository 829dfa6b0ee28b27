import Mathlib.Data.List.Perm.Subperm
import EventRelay.Proofs.Monitors.Register
import EventRelay.Proofs.Worker.Whereabouts
/-!
# Holdings

A worker keeps its subscriptions in three places, each with a way of its own to look a name up and to
count the names of a connection: the registry of the replays, the handoff queue and the monitors.  The
holdings of a worker are the names from all three in one list, and both the look-ups and the counts are
read off that list.

Main statements: `Going.places_le_one` (nobody is in two places), `Going.subs_le` (where nobody new is held,
no connection has more) and `Going.subs_removeSub`.
-/

namespace EventRelay

namespace ByRecipient

variable {β : Type} {m : ByRecipient β}

/-- The recipients that something belongs to. -/
def recipients (m : ByRecipient β) : List Recipient :=
  m.entries.flatMap fun entry => entry.2.keys.map (Recipient.mk entry.1)

theorem mem_recipients {who : Recipient} : who ∈ m.recipients ↔ (get? m who).isSome := by
  simp only [recipients, List.mem_flatMap, List.mem_map, Prod.exists, KeyMap.mem_entries_iff]
  constructor
  · rintro ⟨conn, subs, hsubs, id, hid, rfl⟩
    rw [get?_of_conn hsubs]
    exact KeyMap.mem_keys_iff.1 hid
  · intro hsome
    cases hsubs : KeyMap.get? m who.conn with
    | none =>
      rw [get?, hsubs] at hsome
      cases hsome
    | some subs =>
      rw [get?_of_conn hsubs] at hsome
      exact ⟨who.conn, subs, hsubs, who.subId, KeyMap.mem_keys_iff.2 hsome, rfl⟩

theorem nodup_recipients : m.recipients.Nodup := by
  refine List.nodup_flatMap.2 ⟨fun entry _ => ?_, ?_⟩
  · refine List.Nodup.map (fun a b heq => ?_) entry.2.distinct
    exact (Recipient.eq_iff.1 heq).2
  · -- two entries are of two connections
    refine (List.pairwise_map.1 m.distinct).imp fun {a b} hne who ha hb => ?_
    obtain ⟨_, -, rfl⟩ := List.mem_map.1 ha
    obtain ⟨_, -, heq⟩ := List.mem_map.1 hb
    exact hne (Recipient.eq_iff.1 heq).1.symm

theorem count_recipients {who : Recipient} : m.recipients.count who = (get? m who).isSome.toNat := by
  rw [nodup_recipients.count]
  split
  · rename_i hmem
    rw [mem_recipients.1 hmem]
    rfl
  · rename_i hmem
    rw [Bool.eq_false_iff.2 fun hsome => hmem (mem_recipients.2 hsome)]
    rfl

theorem countP_recipients {conn : ConnId} :
    m.recipients.countP (·.conn = conn) = ((KeyMap.get? m conn).map KeyMap.size).getD 0 :=
  (size_eq_countP nodup_recipients (fun _ => mem_recipients) conn).symm

end ByRecipient

namespace Whereabouts

variable {place : Whereabouts}

/-- How many there are of a recipient. -/
def size (place : Whereabouts) : Nat :=
  place.replay.isSome.toNat + place.waiting.length + place.monitor.isSome.toNat

theorem size_eq_zero : place.size = 0 ↔ place = nowhere := by
  obtain ⟨replay, waiting, monitor⟩ := place
  cases replay <;> cases waiting <;> cases monitor <;> simp [size, nowhere]

theorem Fits.size_le_one {t : Tale} (h : Fits place t) : place.size ≤ 1 := by
  cases h with
  | nowhere => exact Nat.zero_le _
  | replayed => exact Nat.le_refl _
  | waiting => exact Nat.le_refl _
  | followed => exact Nat.le_refl _

end Whereabouts

namespace Worker

variable {v v' : View} {w w' : Worker} {n n' : Nat} {deeds deeds' : List Deed} {who : Recipient}
  {conn : ConnId}

/-! ### Look-ups and counts -/

/-- In how many places a worker has a recipient. -/
def places (w : Worker) (who : Recipient) : Nat :=
  (w.queries.contains who).toNat + w.handoffs.countP (·.sub.toRecipient = who)
    + (w.monitors.contains who).toNat

/-- How many subscriptions of a connection a worker has. -/
def subs (w : Worker) (conn : ConnId) : Nat := w.queries.connSubs conn + w.liveSubs conn

/-- How many subscriptions under other names the connection of a recipient has. -/
def others (w : Worker) (who : Recipient) : Nat := w.subs who.conn - w.places who

/-- The names under which a worker has subscriptions. -/
def holdings (w : Worker) : List Recipient :=
  ByRecipient.recipients w.queries.registry ++ w.handoffs.map (·.sub.toRecipient)
    ++ ByRecipient.recipients w.monitors.conns

theorem places_eq_count : w.places who = w.holdings.count who := by
  have hwaiting : (w.handoffs.map (·.sub.toRecipient)).count who
      = w.handoffs.countP (·.sub.toRecipient = who) := by
    rw [List.count, List.countP_map]
    exact List.countP_congr fun f _ => by simp
  rw [holdings, List.count_append, List.count_append, ByRecipient.count_recipients,
    ByRecipient.count_recipients, hwaiting]
  rfl

theorem subs_eq_countP : w.subs conn = w.holdings.countP (·.conn = conn) := by
  have hqueries : w.queries.connSubs conn
      = (ByRecipient.recipients w.queries.registry).countP (·.conn = conn) := by
    rw [ByRecipient.countP_recipients, Scheduler.connSubs]
    cases w.queries.registry.get? conn <;> rfl
  have hwaiting : (w.handoffs.map (·.sub.toRecipient)).countP (·.conn = conn)
      = w.handoffs.countP (·.sub.conn = conn) := by
    rw [List.countP_map]
    rfl
  have hmonitors : w.monitors.connSubs conn
      = (ByRecipient.recipients w.monitors.conns).countP (·.conn = conn) := by
    rw [ByRecipient.countP_recipients]
    exact Monitors.connSubs_eq
  rw [holdings, List.countP_append, List.countP_append, hwaiting, ← hqueries, ← hmonitors, subs, liveSubs]
  omega

/-! ### Whereabouts -/

theorem places_eq_size (hw : w.queries.Wf) : w.places who = (w.whereabouts who).size := by
  rw [places, ← hw.isSome_serving, List.countP_eq_length_filter]
  rfl

/-- A name is held if its recipient is anywhere. -/
theorem mem_holdings (hw : w.queries.Wf) : who ∈ w.holdings ↔ w.whereabouts who ≠ .nowhere := by
  rw [← List.count_pos_iff, ← places_eq_count, places_eq_size hw, Nat.pos_iff_ne_zero, Ne,
    Whereabouts.size_eq_zero]

/-- A worker has a recipient in one place at most. -/
theorem Going.places_le_one (h : Going v w n deeds) (who : Recipient) : w.places who ≤ 1 := by
  rw [places_eq_size h.queries]
  exact (h.fits who).size_le_one

theorem Going.nodup_holdings (h : Going v w n deeds) : w.holdings.Nodup := by
  refine List.nodup_iff_count_le_one.2 fun who => ?_
  rw [← places_eq_count]
  exact h.places_le_one who

/-- Where every name is on a list, the list counts no fewer. -/
theorem Going.subs_le_countP (h : Going v w n deeds) {l : List Recipient}
    (hl : ∀ who, w.whereabouts who ≠ .nowhere → who ∈ l) (conn : ConnId) :
    w.subs conn ≤ l.countP (·.conn = conn) := by
  rw [subs_eq_countP]
  refine List.Subperm.countP_le _ (List.subperm_of_subset h.nodup_holdings fun who hwho => ?_)
  exact hl who ((mem_holdings h.queries).1 hwho)

/-- Where nobody new is held, no connection has more. -/
theorem Going.subs_le (h : Going v w n deeds) (h' : Going v' w' n' deeds')
    (hnone : ∀ who, w.whereabouts who = .nowhere → w'.whereabouts who = .nowhere) (conn : ConnId) :
    w'.subs conn ≤ w.subs conn := by
  rw [@subs_eq_countP w]
  refine h'.subs_le_countP (fun who hwho => ?_) conn
  exact (mem_holdings h.queries).2 fun hwhere => hwho (hnone who hwhere)

/-- Clearing a name leaves the others. -/
theorem Going.subs_removeSub (h : Going v w n deeds) (who : Recipient) :
    (w.removeSub who).subs who.conn = w.others who := by
  have hcut : Going v (w.removeSub who) n (deeds ++ [.handled (.removeSub who) 0 false]) :=
    h.removeSub who
  have hmem : ∀ x, x ∈ (w.removeSub who).holdings ↔ x ∈ w.holdings.erase who := by
    intro x
    rw [h.nodup_holdings.mem_erase_iff, mem_holdings hcut.queries, mem_holdings h.queries,
      whereabouts_removeSub h.queries]
    by_cases hx : x = who
    · simp [hx]
    · simp [hx]
  -- no name stands twice on either list, so the same names are the same list up to order
  have hperm : (w.removeSub who).holdings.Perm (w.holdings.erase who) :=
    (List.perm_ext_iff_of_nodup hcut.nodup_holdings (h.nodup_holdings.erase who)).2 hmem
  rw [others, subs_eq_countP, subs_eq_countP, places_eq_count, hperm.countP_eq, h.nodup_holdings.count]
  split
  · rename_i hwho
    have hcount := (List.perm_cons_erase hwho).countP_eq (fun x => decide (x.conn = who.conn))
    simp only [List.countP_cons, decide_true, if_true] at hcount
    omega
  · rename_i hwho
    rw [List.erase_of_not_mem hwho, Nat.sub_zero]

end Worker

end EventRelay
