import Mathlib.Data.List.Induction
import EventRelay.Proofs.Store.Queries
/-!
# The ledger of a store

A store gives its seqs out one after the other, each to an event that it takes.  The ledger lists the
events with their seqs, and it is only ever written on: refused events get no seq, and a deletion gives
none back.  Every event that is stored stands in the ledger under its seq, an event that has been taken
is found under its seq until that is deleted, and the six index tables list just the entries of the
events stored.  All this holds of both kinds of store after any calls, with no bound on how many there
are.

Main statements: `Sound.run_effect` (what a call does), `Sound.run` (what it keeps), `event?_foldl_run`
and `ledger_after`.
-/

namespace EventRelay

open Std

theorem OrderedSet.nodup_toList {α : Type} {cmp : α → α → Ordering} [ReflCmp cmp]
    (s : OrderedSet α cmp) : s.toList.Nodup := by
  refine s.ordered.imp fun {a b} hab heq => ?_
  have hself : cmp b b = .eq := ReflCmp.compare_self
  rw [heq, hself] at hab
  cases hab

namespace Store

/-! ### Calls -/

/-- The two kinds of store. -/
inductive Kind where
  | memory
  | rows

/-- What a store is asked to do. -/
inductive Call where
  | insert (e : Event) (text : String)
  | insertText (text : String)
  /-- Deletes what is found under a seq. -/
  | delete (seq : Nat)
  /-- Deletes what a condition on the seq selects. -/
  | deleteWhere (seq : UInt64)
  | reopen

def Call.isInsertion : Call → Bool
  | insert _ _ => true
  | insertText _ => true
  | _ => false

/-- The seq that a call deletes.  Where a condition on the row number gives a seq above all row numbers,
it selects the largest of them. -/
def Call.deleted? : Kind → Call → Option Nat
  | _, delete seq => some seq
  | .memory, deleteWhere seq => some seq.toNat
  | .rows, deleteWhere seq => some (min seq.toNat RowStore.maxSeq)
  | _, _ => none

theorem Call.deleted?_of_isInsertion {kind : Kind} {c : Call} (hc : c.isInsertion = true) :
    c.deleted? kind = none := by
  cases c with
  | insert e text => cases kind <;> rfl
  | insertText text => cases kind <;> rfl
  | delete seq => cases hc
  | deleteWhere seq => cases hc
  | reopen => cases hc

/-- A store and the events that it has given a seq, in order. -/
structure Kept where
  store : Store
  ledger : List (Nat × Event)

namespace Kept

def start : Kind → Kept
  | .memory => ⟨.memory .empty, []⟩
  | .rows => ⟨.rows .empty, []⟩

/-- Writes down the outcome of an insertion; one that fails leaves the store as it is. -/
def note {ε : Type} (k : Kept) (e : Event) : Except ε (Option Nat × Store) → Kept
  | .ok (seq, s) => ⟨s, k.ledger ++ seq.toList.map fun seq => (seq, e)⟩
  | .error _ => k

def run (k : Kept) : Call → Kept
  | .insert e text => k.note e (k.store.insertWithText e text)
  | .insertText text =>
    match Event.ofText text with
    | .error _ => k
    | .ok e => k.note e (k.store.insertText text)
  | .delete seq => { k with store := (k.store.delete? seq).getD k.store }
  | .deleteWhere seq =>
    { k with
      store :=
        match k.store with
        | .memory s => .memory (s.delete seq).2
        | .rows s => .rows (s.delete seq).2 }
  | .reopen =>
    { k with
      store :=
        match k.store with
        | .memory s => .memory s
        | .rows s => .rows s.reopen }

/-- The store and its ledger after calls, from the start. -/
def after (kind : Kind) (calls : List Call) : Kept := calls.foldl run (start kind)

end Kept

/-! ### One call -/

/-- A store of a kind.  Row numbers are signed words; a seq of the memory store is not one. -/
def OfKind (kind : Kind) : Store → Prop
  | .memory _ => kind = .memory
  | .rows s => kind = .rows ∧ s.lastSeq ≤ RowStore.maxSeq

variable {kind : Kind}

/-- The table store refuses an event when its row numbers are used up. -/
theorem OfKind.insertWithText {s s' : Store} (hs : s.OfKind kind) {e : Event} {text : String}
    {seq : Option Nat} (h : s.insertWithText e text = .ok (seq, s')) : s'.OfKind kind := by
  cases s with
  | memory s =>
    cases h
    exact hs
  | rows s =>
    simp only [Store.insertWithText] at h
    split at h
    · rename_i hrows
      cases h
      rw [RowStore.insert] at hrows
      split at hrows
      · cases hrows
      · split at hrows
        · cases hrows
          exact hs
        · split at hrows
          · cases hrows
          · rename_i hroom
            cases hrows
            exact ⟨hs.1, Nat.succ_le_of_lt (Nat.lt_of_not_le hroom)⟩
    · cases h

theorem OfKind.delete? {s s' : Store} (hs : s.OfKind kind) {seq : Nat} (h : s.delete? seq = some s') :
    s'.OfKind kind := by
  cases s with
  | memory s =>
    obtain ⟨t, -, rfl⟩ := Option.map_eq_some_iff.1 h
    exact hs
  | rows s =>
    obtain ⟨t, ht, rfl⟩ := Option.map_eq_some_iff.1 h
    obtain ⟨row, -, rfl⟩ := Option.map_eq_some_iff.1 ht
    exact hs

/-- Where there is nothing to delete, nothing is stored. -/
theorem event?_of_delete?_eq_none {s : Store} {seq : Nat} (h : s.delete? seq = none) :
    s.view.event? seq = none := by
  cases s with
  | memory s => exact MemoryStore.event?_view.trans (Option.map_eq_none_iff.1 (Option.map_eq_none_iff.1 h))
  | rows s =>
    have hrow : s.rows.get? seq = none := Option.map_eq_none_iff.1 (Option.map_eq_none_iff.1 h)
    show s.view.event? seq = none
    rw [View.event?, RowStore.view, SeqMap.get?_map, hrow]
    rfl

/-- The event of a text is stored like any other. -/
theorem insertText_eq_ok {s : Store} {text : String} {r : Option Nat × Store}
    (h : s.insertText text = .ok r) :
    ∃ e, Event.ofText text = .ok e ∧ s.insertWithText e text = .ok r := by
  cases he : Event.ofText text with
  | error cause =>
    cases s with
    | memory s =>
      rw [insertText, he] at h
      cases h
    | rows s =>
      rw [insertText, RowStore.insertText, he] at h
      cases h
  | ok e =>
    refine ⟨e, rfl, ?_⟩
    cases s with
    | memory s =>
      rw [insertText, he] at h
      cases h
      rfl
    | rows s =>
      simp only [insertText, RowStore.insertText, he] at h
      rw [insertWithText]
      cases hins : s.insert e text with
      | error cause =>
        rw [hins] at h
        cases h
      | ok r' =>
        rw [hins] at h
        cases h
        rfl

namespace Kept

/-- What a call may do to a store and its ledger. -/
inductive Effect (kind : Kind) (k : Kept) (c : Call) : Kept → Prop
  /-- Nothing: an event is refused, there is nothing to delete, or the store is opened again. -/
  | none (habsent : ∀ seq, c.deleted? kind = some seq → k.store.view.event? seq = .none) : Effect kind k c k
  | inserted {s e} (hs : s.OfKind kind) (hc : c.isInsertion = true)
      (hview : s.view = k.store.view.insert e) :
      Effect kind k c ⟨s, k.ledger ++ [(k.store.view.latestSeq + 1, e)]⟩
  | deleted {s seq} (hs : s.OfKind kind) (hc : c.deleted? kind = some seq)
      (hview : s.view = k.store.view.delete seq) : Effect kind k c ⟨s, k.ledger⟩

/-- Tables and ledger agree with the events that are stored. -/
structure Sound (kind : Kind) (k : Kept) : Prop where
  ofKind : k.store.OfKind kind
  mirrors : k.store.view.Mirrors
  /-- The seqs have been given out in order, none left out and none twice. -/
  seqs_eq : k.ledger.map Prod.fst = List.range' 1 k.store.view.latestSeq
  written : ∀ {seq e}, k.store.view.event? seq = some e → (seq, e) ∈ k.ledger

theorem sound_start : (start kind).Sound kind := by
  cases kind with
  | memory => exact ⟨rfl, View.mirrors_empty, rfl, nofun⟩
  | rows => exact ⟨⟨rfl, Nat.zero_le _⟩, View.mirrors_empty, rfl, nofun⟩

variable {k k' : Kept} {c : Call}

theorem Effect.refused (hc : c.isInsertion = true) : Effect kind k c k := by
  refine .none fun seq hseq => ?_
  rw [Call.deleted?_of_isInsertion hc] at hseq
  cases hseq

theorem Sound.effect_note (hk : k.Sound kind) (hc : c.isInsertion = true) {e : Event} {text : String}
    {r : Option Nat × Store} (h : k.store.insertWithText e text = .ok r) :
    Effect kind k c ⟨r.2, k.ledger ++ r.1.toList.map fun seq => (seq, e)⟩ := by
  obtain ⟨seq, s⟩ := r
  have hs : s.OfKind kind := hk.ofKind.insertWithText h
  rcases insertWithText_cases h with ⟨rfl, rfl⟩ | ⟨rfl, hview⟩
  · rw [Option.toList_none, List.map_nil, List.append_nil]
    exact .refused hc
  · exact .inserted hs hc hview

theorem Sound.effect_delete? (hk : k.Sound kind) {seq : Nat} (hc : c.deleted? kind = some seq) :
    Effect kind k c { k with store := (k.store.delete? seq).getD k.store } := by
  cases h : k.store.delete? seq with
  | none =>
    refine .none fun n hn => ?_
    cases hc.symm.trans hn
    exact event?_of_delete?_eq_none h
  | some s => exact .deleted (hk.ofKind.delete? h) hc (view_delete? hk.mirrors h)

/-- A call does one of three things. -/
theorem Sound.run_effect (hk : k.Sound kind) (c : Call) : Effect kind k c (k.run c) := by
  cases c with
  | insert e text =>
    rw [Kept.run]
    cases h : k.store.insertWithText e text with
    | error cause => exact .refused rfl
    | ok r => exact hk.effect_note rfl h
  | insertText text =>
    simp only [Kept.run]
    cases he : Event.ofText text with
    | error cause => exact .refused rfl
    | ok e =>
      cases h : k.store.insertText text with
      | error cause => exact .refused rfl
      | ok r =>
        obtain ⟨e', he', h⟩ := insertText_eq_ok h
        cases he.symm.trans he'
        exact hk.effect_note rfl h
  | delete seq => exact hk.effect_delete? (by cases kind <;> rfl)
  | deleteWhere seq =>
    obtain ⟨s, ledger⟩ := k
    cases s with
    | memory s =>
      obtain rfl : kind = .memory := hk.ofKind
      have hdel : Effect .memory ⟨.memory s, ledger⟩ (.deleteWhere seq)
          ⟨((Store.memory s).delete? seq.toNat).getD (.memory s), ledger⟩ := hk.effect_delete? rfl
      have hsame : ((Store.memory s).delete? seq.toNat).getD (.memory s) = .memory (s.delete seq).2 := by
        rw [Store.delete?, MemoryStore.delete]
        cases s.delete? seq.toNat <;> rfl
      rw [hsame] at hdel
      exact hdel
    | rows s =>
      obtain ⟨rfl, hlast⟩ : kind = .rows ∧ s.lastSeq ≤ RowStore.maxSeq := hk.ofKind
      exact .deleted (s := .rows (s.delete seq).2) ⟨rfl, hlast⟩ rfl
        (RowStore.view_delete hk.mirrors hlast)
  | reopen =>
    obtain ⟨s, ledger⟩ := k
    have hsame : Kept.run ⟨s, ledger⟩ .reopen = ⟨s, ledger⟩ := by
      cases s with
      | memory s => rfl
      | rows s => simp only [Kept.run, RowStore.reopen_eq]
    rw [hsame]
    exact .none fun seq hseq => by cases kind <;> cases hseq

theorem Effect.sound (h : Effect kind k c k') (hk : k.Sound kind) : k'.Sound kind := by
  cases h with
  | none habsent => exact hk
  | @inserted s e hs hc hview =>
    refine ⟨hs, ?mirrors, ?seqs_eq, ?written⟩
    case mirrors =>
      show s.view.Mirrors
      rw [hview]
      exact hk.mirrors.insert e
    case seqs_eq =>
      show _ = List.range' 1 s.view.latestSeq
      rw [List.map_append, hk.seqs_eq, hview, View.insert, List.range'_1_concat, Nat.add_comm 1]
      rfl
    case written =>
      intro n e' he'
      have he' : s.view.event? n = some e' := he'
      rw [hview, View.event?_insert] at he'
      split at he'
      · rename_i hn
        cases he'
        rw [hn]
        exact List.mem_append_right _ (List.mem_singleton_self _)
      · exact List.mem_append_left _ (hk.written he')
  | @deleted s seq hs hc hview =>
    refine ⟨hs, ?mirrors, ?seqs_eq, ?written⟩
    case mirrors =>
      show s.view.Mirrors
      rw [hview]
      exact hk.mirrors.delete seq
    case seqs_eq =>
      show _ = List.range' 1 s.view.latestSeq
      rw [hview]
      exact hk.seqs_eq
    case written =>
      intro n e he
      have he : s.view.event? n = some e := he
      rw [hview, View.event?_delete] at he
      split at he
      · cases he
      · exact hk.written he

/-- The ledger is only written on. -/
theorem Effect.ledger_prefix (h : Effect kind k c k') : k.ledger <+: k'.ledger := by
  cases h with
  | none habsent => exact List.prefix_refl _
  | inserted hs hc hview => exact List.prefix_append _ _
  | deleted hs hc hview => exact List.prefix_refl _

theorem Effect.latestSeq_le (h : Effect kind k c k') :
    k.store.view.latestSeq ≤ k'.store.view.latestSeq := by
  cases h with
  | none habsent => exact Nat.le_refl _
  | @inserted s e hs hc hview =>
    show _ ≤ s.view.latestSeq
    rw [hview]
    exact Nat.le_succ _
  | @deleted s seq hs hc hview =>
    show _ ≤ s.view.latestSeq
    rw [hview]
    exact Nat.le_refl _

/-- An insertion that writes nothing down leaves the store as it is. -/
theorem Effect.eq_of_refused (h : Effect kind k c k') (hc : c.isInsertion = true)
    (hledger : k'.ledger = k.ledger) : k' = k := by
  cases h with
  | none habsent => rfl
  | inserted hs hc hview =>
    rw [List.append_right_eq_self] at hledger
    cases hledger
  | deleted hs hdeleted hview =>
    rw [Call.deleted?_of_isInsertion hc] at hdeleted
    cases hdeleted

/-- What an insertion writes down is what is found under the seq. -/
theorem Effect.event?_of_written (h : Effect kind k c k') {seq : Nat} {e : Event}
    (hledger : k'.ledger = k.ledger ++ [(seq, e)]) :
    k'.store.view.event? seq = some e ∧ seq = k'.store.view.latestSeq := by
  have hgrown : k.ledger ≠ k.ledger ++ [(seq, e)] := fun h => by
    cases List.append_right_eq_self.1 h.symm
  cases h with
  | none habsent => exact absurd hledger hgrown
  | @inserted s e' hs hc hview =>
    cases List.append_cancel_left hledger
    show s.view.event? _ = some e ∧ _ = s.view.latestSeq
    rw [hview, View.event?_insert, if_pos rfl]
    exact ⟨rfl, rfl⟩
  | deleted hs hc hview => exact absurd hledger hgrown

/-- A seq that has been given out keeps its event, unless the call deletes it. -/
theorem Effect.event?_eq (h : Effect kind k c k') {seq : Nat} (hseq : seq ≤ k.store.view.latestSeq) :
    k'.store.view.event? seq
      = if c.deleted? kind = some seq then .none else k.store.view.event? seq := by
  cases h with
  | none habsent =>
    split
    · exact habsent seq ‹_›
    · rfl
  | @inserted s e hs hc hview =>
    -- the new event has a seq above all that have been given out
    show s.view.event? seq = _
    rw [hview, View.event?_insert, if_neg (Nat.ne_of_lt (Nat.lt_succ_of_le hseq)),
      Call.deleted?_of_isInsertion hc, if_neg nofun]
  | @deleted s n hs hc hview =>
    show s.view.event? seq = _
    rw [hview, View.event?_delete, hc]
    exact if_congr (by rw [Option.some_inj, eq_comm]) rfl rfl

/-! ### After any calls -/

theorem Sound.run (hk : k.Sound kind) (c : Call) : (k.run c).Sound kind := (hk.run_effect c).sound hk

theorem sound_after {calls : List Call} : (after kind calls).Sound kind := by
  induction calls using List.reverseRecOn with
  | nil => exact sound_start
  | append_singleton calls c ih =>
    rw [after, List.foldl_append]
    exact ih.run c

theorem after_append {calls later : List Call} :
    after kind (calls ++ later) = later.foldl run (after kind calls) := List.foldl_append

theorem Sound.ledger_foldl_run (hk : k.Sound kind) (later : List Call) :
    k.ledger <+: (later.foldl Kept.run k).ledger
      ∧ k.store.view.latestSeq ≤ (later.foldl Kept.run k).store.view.latestSeq := by
  induction later generalizing k with
  | nil => exact ⟨List.prefix_refl _, Nat.le_refl _⟩
  | cons c rest ih =>
    have heffect := hk.run_effect c
    obtain ⟨hledger, hlast⟩ := ih (hk.run c)
    exact ⟨heffect.ledger_prefix.trans hledger, Nat.le_trans heffect.latestSeq_le hlast⟩

/-- Calls leave a seq that has been given out its event, until one of them deletes it. -/
theorem Sound.event?_foldl_run (hk : k.Sound kind) {seq : Nat} (hseq : seq ≤ k.store.view.latestSeq)
    (later : List Call) :
    (later.foldl Kept.run k).store.view.event? seq
      = if some seq ∈ later.map (Call.deleted? kind) then none else k.store.view.event? seq := by
  induction later generalizing k with
  | nil => rw [List.map_nil, if_neg List.not_mem_nil, List.foldl_nil]
  | cons c rest ih =>
    have heffect := hk.run_effect c
    rw [List.foldl_cons, ih (hk.run c) (Nat.le_trans hseq heffect.latestSeq_le), heffect.event?_eq hseq,
      List.map_cons]
    -- no call brings back what another has deleted, so it is the same which of them it was
    by_cases hrest : some seq ∈ rest.map (Call.deleted? kind)
    · rw [if_pos hrest, if_pos (List.mem_cons_of_mem _ hrest)]
    · rw [if_neg hrest]
      refine if_congr ?_ rfl rfl
      rw [List.mem_cons, or_iff_left hrest, eq_comm]

/-- After any calls, a store of either kind lists in each index, once each, just the entries of the events
stored; every row can be read, and its event stands in the ledger under its seq.  The seqs in the ledger
are 1, 2, 3 and so on up to the last one given out, so none is given out twice; the ledger is only
written on, so the last seq never goes down; and an insertion that gets no seq leaves the store as it
is.  An event that has been given a seq is found under it for as long as no call deletes that seq. -/
theorem ledger_after {kind : Kind} {calls : List Call} :
    (∀ k, ((after kind calls).store.view.indices.get k).toList.Nodup
      ∧ ∀ x, x ∈ (after kind calls).store.view.indices.get k ↔
        ∃ e, (after kind calls).store.view.event? x.seq = some e ∧ (k, x.key) ∈ e.indexEntries)
    ∧ (∀ seq row, (after kind calls).store.view.rows.get? seq = some row →
      seq ≤ (after kind calls).store.view.latestSeq
        ∧ ∃ e, row = .event e ∧ (seq, e) ∈ (after kind calls).ledger)
    ∧ (after kind calls).ledger.map Prod.fst
      = List.range' 1 (after kind calls).store.view.latestSeq
    ∧ ((after kind calls).ledger.map Prod.fst).Nodup
    ∧ (∀ later, (after kind calls).ledger <+: (after kind (calls ++ later)).ledger
      ∧ (after kind calls).store.view.latestSeq ≤ (after kind (calls ++ later)).store.view.latestSeq)
    ∧ (∀ c, c.isInsertion = true → (after kind (calls ++ [c])).ledger = (after kind calls).ledger →
      (after kind (calls ++ [c])).store = (after kind calls).store)
    ∧ ∀ c seq e, (after kind (calls ++ [c])).ledger = (after kind calls).ledger ++ [(seq, e)] →
      ∀ later, (after kind (calls ++ c :: later)).store.view.event? seq
        = if some seq ∈ later.map (Call.deleted? kind) then none else some e := by
  have hk : (after kind calls).Sound kind := sound_after
  refine ⟨fun k => ⟨OrderedSet.nodup_toList _, fun x => hk.mirrors.mem_get_iff⟩, ?rows, hk.seqs_eq, ?nodup,
    ?later, ?refused, ?found⟩
  case rows =>
    intro seq row hrow
    obtain ⟨e, rfl⟩ := hk.mirrors.readable hrow
    have he := View.event?_eq_some_iff.2 hrow
    exact ⟨hk.mirrors.bounded he, e, rfl, hk.written he⟩
  case nodup =>
    rw [hk.seqs_eq]
    exact List.nodup_range'
  case later =>
    intro later
    rw [after_append]
    exact hk.ledger_foldl_run later
  case refused =>
    intro c hc h
    rw [after_append] at h ⊢
    exact congrArg Kept.store ((hk.run_effect c).eq_of_refused hc h)
  case found =>
    intro c seq e h later
    rw [after_append] at h ⊢
    obtain ⟨hfound, hseq⟩ := (hk.run_effect c).event?_of_written h
    rw [List.foldl_cons, (hk.run c).event?_foldl_run (Nat.le_of_eq hseq), hfound]

end Kept

end Store

end EventRelay
