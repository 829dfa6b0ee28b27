import EventRelay.KeyMap
import EventRelay.Subscription
/-!
# Maps by recipient

What belongs to a subscription is kept in a map of maps, by connection and then by name.  The lemmas
here say what the ways to change such a map do to a look-up.
-/

namespace EventRelay

theorem Recipient.eq_iff {a b : Recipient} : a = b ↔ a.conn = b.conn ∧ a.subId = b.subId := by
  cases a
  cases b
  simp

namespace KeyMap

theorem get?_eq_none_of_isEmpty {κ β : Type} [DecidableEq κ] {m : KeyMap κ β}
    (h : m.isEmpty = true) (k : κ) : m.get? k = none := by
  rw [get?, List.isEmpty_iff.1 h]
  rfl

theorem mem_values_iff {κ β : Type} [DecidableEq κ] {m : KeyMap κ β} {b : β} :
    b ∈ m.values ↔ ∃ k, m.get? k = some b := by
  simp only [values, List.mem_map]
  constructor
  · rintro ⟨⟨k, b⟩, hmem, rfl⟩
    exact ⟨k, mem_entries_iff.1 hmem⟩
  · rintro ⟨k, hk⟩
    exact ⟨(k, b), mem_entries_iff.2 hk, rfl⟩

theorem mem_keys_iff {κ β : Type} [DecidableEq κ] {m : KeyMap κ β} {k : κ} :
    k ∈ m.keys ↔ (m.get? k).isSome := by
  simp only [keys, List.mem_map, Option.isSome_iff_exists]
  constructor
  · rintro ⟨⟨k, b⟩, hmem, rfl⟩
    exact ⟨b, mem_entries_iff.1 hmem⟩
  · rintro ⟨b, hb⟩
    exact ⟨(k, b), mem_entries_iff.2 hb, rfl⟩

theorem erase_erase {κ β : Type} [DecidableEq κ] {m : KeyMap κ β} {k : κ} :
    (m.erase k).erase k = m.erase k := by
  simp only [erase, List.filter_filter, Bool.and_self]

theorem insert_insert {κ β : Type} [DecidableEq κ] {m : KeyMap κ β} {k : κ} {b c : β} :
    (m.insert k b).insert k c = m.insert k c := by
  have hentries : ((m.insert k b).erase k).entries = (m.erase k).entries := by
    show ((k, b) :: m.entries.filter fun x => x.1 ≠ k).filter (fun x => x.1 ≠ k) = _
    rw [List.filter_cons_of_neg (by simp), List.filter_filter]
    simp only [Bool.and_self]
    rfl
  show (⟨(k, c) :: ((m.insert k b).erase k).entries, _⟩ : KeyMap κ β)
    = ⟨(k, c) :: (m.erase k).entries, _⟩
  simp only [hentries]

theorem isEmpty_eq_true_iff {κ β : Type} [DecidableEq κ] {m : KeyMap κ β} :
    m.isEmpty = true ↔ ∀ k, m.get? k = none := by
  refine ⟨get?_eq_none_of_isEmpty, fun h => ?_⟩
  refine List.isEmpty_iff.2 (List.eq_nil_iff_forall_not_mem.2 fun ⟨k, b⟩ hmem => ?_)
  cases (h k).symm.trans (mem_entries_iff.1 hmem)

theorem size_erase_le {κ β : Type} [DecidableEq κ] {m : KeyMap κ β} {k : κ} :
    (m.erase k).size ≤ m.size := List.length_filter_le _ _

theorem size_erase_lt {κ β : Type} [DecidableEq κ] {m : KeyMap κ β} {k : κ} {b : β}
    (h : m.get? k = some b) : (m.erase k).size < m.size :=
  List.length_filter_lt_length_iff_exists.2 ⟨(k, b), mem_entries_iff.2 h, by simp⟩

theorem size_insert_le {κ β : Type} [DecidableEq κ] {m : KeyMap κ β} {k : κ} {b : β} :
    (m.insert k b).size ≤ m.size + 1 := Nat.succ_le_succ size_erase_le

theorem size_modify {κ β : Type} [DecidableEq κ] {m : KeyMap κ β} {k : κ} {f : β → β} :
    (m.modify k f).size = m.size := List.length_map _

end KeyMap

/-- A map of maps, by connection and by name. -/
abbrev ByRecipient (β : Type) := KeyMap ConnId (KeyMap SubId β)

namespace ByRecipient

variable {β : Type} {m : ByRecipient β} {who x : Recipient}

/-- What belongs to a recipient. -/
def get? (m : ByRecipient β) (who : Recipient) : Option β :=
  (KeyMap.get? m who.conn).bind (·.get? who.subId)

theorem get?_of_conn {subs : KeyMap SubId β} (h : KeyMap.get? m who.conn = some subs) :
    get? m who = subs.get? who.subId := by
  rw [get?, h, Option.bind_some]

theorem eq_iff_of_conn (h : x.conn = who.conn) : x = who ↔ x.subId = who.subId := by
  rw [Recipient.eq_iff]
  exact and_iff_right h

/-- A name is taken out of its connection, and a connection left without names goes, too. -/
theorem get?_drop {subs : KeyMap SubId β} (h : KeyMap.get? m who.conn = some subs) :
    get? (if (subs.erase who.subId).isEmpty then m.erase who.conn
      else m.insert who.conn (subs.erase who.subId)) x = if x = who then none else get? m x := by
  by_cases hconn : x.conn = who.conn
  · have hafter : get? (if (subs.erase who.subId).isEmpty then m.erase who.conn
        else m.insert who.conn (subs.erase who.subId)) x = (subs.erase who.subId).get? x.subId := by
      split
      · rename_i hempty
        rw [get?, KeyMap.get?_erase, if_pos hconn, KeyMap.get?_eq_none_of_isEmpty hempty]
        rfl
      · rw [get?, KeyMap.get?_insert, if_pos hconn]
        rfl
    rw [hafter, KeyMap.get?_erase, get?_of_conn (hconn ▸ h)]
    simp only [eq_iff_of_conn hconn]
  · have hne : x ≠ who := fun heq => hconn (congrArg Recipient.conn heq)
    rw [if_neg hne, get?, get?]
    split
    · rw [KeyMap.get?_erase, if_neg hconn]
    · rw [KeyMap.get?_insert, if_neg hconn]

theorem get?_erase {conn : ConnId} : get? (m.erase conn) x = if x.conn = conn then none else get? m x := by
  rw [get?, KeyMap.get?_erase]
  split
  · rfl
  · rfl

theorem get?_put {b : β} :
    get? (m.insert who.conn (((KeyMap.get? m who.conn).getD .empty).insert who.subId b)) x
      = if x = who then some b else get? m x := by
  by_cases hconn : x.conn = who.conn
  · rw [get?, KeyMap.get?_insert, if_pos hconn, Option.bind_some, KeyMap.get?_insert]
    simp only [eq_iff_of_conn hconn]
    split
    · rfl
    · rw [get?, hconn]
      cases KeyMap.get? m who.conn with
      | none => rfl
      | some subs => rfl
  · have hne : x ≠ who := fun heq => hconn (congrArg Recipient.conn heq)
    rw [if_neg hne, get?, KeyMap.get?_insert, if_neg hconn, get?]

theorem get?_modify {f : β → β} :
    get? (m.modify who.conn fun subs => subs.modify who.subId f) x
      = if x = who then (get? m x).map f else get? m x := by
  rw [get?, KeyMap.get?_modify]
  by_cases hconn : x.conn = who.conn
  · simp only [if_pos hconn, eq_iff_of_conn hconn]
    rw [get?]
    cases KeyMap.get? m x.conn with
    | none => simp
    | some subs => simp [KeyMap.get?_modify]
  · have hne : x ≠ who := fun heq => hconn (congrArg Recipient.conn heq)
    rw [if_neg hconn, if_neg hne, get?]

/-- What belongs to the recipients of a connection. -/
theorem mem_values_iff {conn : ConnId} {subs : KeyMap SubId β} (h : KeyMap.get? m conn = some subs)
    {b : β} : b ∈ subs.values ↔ ∃ who : Recipient, who.conn = conn ∧ get? m who = some b := by
  rw [KeyMap.mem_values_iff]
  constructor
  · rintro ⟨id, hid⟩
    refine ⟨⟨conn, id⟩, rfl, ?_⟩
    rw [get?_of_conn h, hid]
  · rintro ⟨who, rfl, hwho⟩
    rw [get?_of_conn h] at hwho
    exact ⟨who.subId, hwho⟩

/-! ### No connection without names -/

/-- No connection is kept that has no names. -/
def Populated (m : ByRecipient β) : Prop :=
  ∀ conn subs, KeyMap.get? m conn = some subs → subs.isEmpty = false

theorem Populated.drop (hm : Populated m) {subs : KeyMap SubId β} : Populated
    (if (subs.erase who.subId).isEmpty then m.erase who.conn
      else m.insert who.conn (subs.erase who.subId)) := by
  intro conn subs' hsubs'
  split at hsubs'
  · rw [KeyMap.get?_erase] at hsubs'
    split at hsubs'
    · cases hsubs'
    · exact hm _ _ hsubs'
  · rename_i hleft
    rw [KeyMap.get?_insert] at hsubs'
    split at hsubs'
    · cases hsubs'
      exact Bool.eq_false_iff.2 hleft
    · exact hm _ _ hsubs'

theorem Populated.erase (hm : Populated m) {conn : ConnId} : Populated (m.erase conn) := by
  intro conn' subs' hsubs'
  rw [KeyMap.get?_erase] at hsubs'
  split at hsubs'
  · cases hsubs'
  · exact hm _ _ hsubs'

theorem Populated.put (hm : Populated m) {subs : KeyMap SubId β} {b : β} :
    Populated (m.insert who.conn (subs.insert who.subId b)) := by
  intro conn' subs' hsubs'
  rw [KeyMap.get?_insert] at hsubs'
  split at hsubs'
  · cases hsubs'
    rfl
  · exact hm _ _ hsubs'

theorem Populated.modify (hm : Populated m) {f : β → β} :
    Populated (m.modify who.conn fun subs => subs.modify who.subId f) := by
  intro conn' subs' hsubs'
  rw [KeyMap.get?_modify] at hsubs'
  split at hsubs'
  · obtain ⟨subs, hsubs, rfl⟩ := Option.map_eq_some_iff.1 hsubs'
    exact (List.isEmpty_map).trans (hm _ _ hsubs)
  · exact hm _ _ hsubs'

/-- Where there is a connection, somebody is there. -/
theorem Populated.isEmpty_iff (hm : Populated m) :
    KeyMap.isEmpty m = true ↔ ∀ who, get? m who = none := by
  rw [KeyMap.isEmpty_eq_true_iff]
  constructor
  · intro h who
    rw [get?, h, Option.bind_none]
  · intro h conn
    refine Option.eq_none_iff_forall_ne_some.2 fun subs hsubs => ?_
    have hnone : subs.isEmpty = true := KeyMap.isEmpty_eq_true_iff.2 fun id =>
      (@get?_of_conn _ _ ⟨conn, id⟩ _ hsubs).symm.trans (h _)
    rw [hm _ _ hsubs] at hnone
    cases hnone

/-! ### How many belong to a connection -/

/-- How many belong to a connection. -/
def size (m : ByRecipient β) (conn : ConnId) : Nat := ((KeyMap.get? m conn).map KeyMap.size).getD 0

theorem size_of_conn {conn : ConnId} {subs : KeyMap SubId β} (h : KeyMap.get? m conn = some subs) :
    size m conn = subs.size := by
  rw [size, h]
  rfl

theorem size_erase_le {conn conn' : ConnId} : size (m.erase conn') conn ≤ size m conn := by
  rw [size, KeyMap.get?_erase]
  split
  · exact Nat.zero_le _
  · exact Nat.le_refl _

theorem size_insert {conn conn' : ConnId} {subs : KeyMap SubId β} :
    size (m.insert conn' subs) conn = if conn = conn' then subs.size else size m conn := by
  rw [size, KeyMap.get?_insert]
  split
  · rfl
  · rfl

theorem size_drop_le {subs : KeyMap SubId β} (h : KeyMap.get? m who.conn = some subs)
    (conn : ConnId) :
    size (if (subs.erase who.subId).isEmpty then m.erase who.conn
      else m.insert who.conn (subs.erase who.subId)) conn ≤ size m conn := by
  split
  · exact size_erase_le
  · rw [size_insert]
    split
    · rename_i hconn
      rw [hconn, size_of_conn h]
      exact KeyMap.size_erase_le
    · exact Nat.le_refl _

/-- Taking out a name that is there makes room on its connection. -/
theorem size_drop_lt {subs : KeyMap SubId β} (h : KeyMap.get? m who.conn = some subs) {b : β}
    (hb : subs.get? who.subId = some b) :
    size (if (subs.erase who.subId).isEmpty then m.erase who.conn
      else m.insert who.conn (subs.erase who.subId)) who.conn < size m who.conn := by
  have hlt : (subs.erase who.subId).size < size m who.conn := by
    rw [size_of_conn h]
    exact KeyMap.size_erase_lt hb
  split
  · rw [size, KeyMap.get?_erase, if_pos rfl]
    exact Nat.zero_lt_of_lt hlt
  · rw [size_insert, if_pos rfl]
    exact hlt

theorem size_put_le {b : β} (conn : ConnId) :
    size (m.insert who.conn (((KeyMap.get? m who.conn).getD .empty).insert who.subId b)) conn
      ≤ if conn = who.conn then size m conn + 1 else size m conn := by
  rw [size_insert]
  split
  · rename_i hconn
    rw [hconn, size]
    cases KeyMap.get? m who.conn with
    | none => exact Nat.le_refl _
    | some subs => exact KeyMap.size_insert_le
  · exact Nat.le_refl _

theorem size_modify {f : β → β} {conn : ConnId} :
    size (m.modify who.conn fun subs => subs.modify who.subId f) conn = size m conn := by
  rw [size, KeyMap.get?_modify, size]
  split
  · cases KeyMap.get? m conn with
    | none => rfl
    | some subs => exact KeyMap.size_modify
  · rfl

/-! ### The names of a connection -/

/-- The names that belong to a connection. -/
def names (m : ByRecipient β) (conn : ConnId) : List SubId :=
  match KeyMap.get? m conn with
  | none => []
  | some subs => subs.keys

theorem length_names {conn : ConnId} : (names m conn).length = size m conn := by
  rw [names, size]
  cases KeyMap.get? m conn with
  | none => rfl
  | some subs => exact List.length_map _

theorem nodup_names {conn : ConnId} : (names m conn).Nodup := by
  rw [names]
  cases KeyMap.get? m conn with
  | none => exact .nil
  | some subs => exact subs.distinct

theorem mem_names {conn : ConnId} {id : SubId} : id ∈ names m conn ↔ (get? m ⟨conn, id⟩).isSome := by
  rw [names, get?]
  cases KeyMap.get? m conn with
  | none => simp
  | some subs => exact KeyMap.mem_keys_iff

/-- How many belong to a connection is a matter of who is bound. -/
theorem size_congr {γ : Type} {m' : ByRecipient γ}
    (h : ∀ who, (get? m' who).isSome = (get? m who).isSome) (conn : ConnId) :
    size m' conn = size m conn := by
  have hperm : (names m' conn).Perm (names m conn) := by
    refine (List.perm_ext_iff_of_nodup nodup_names nodup_names).2 fun id => ?_
    rw [mem_names, mem_names, h]
  rw [← length_names, ← length_names, hperm.length_eq]

end ByRecipient

end EventRelay
