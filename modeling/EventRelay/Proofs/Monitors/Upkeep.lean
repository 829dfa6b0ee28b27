import EventRelay.Monitors
import EventRelay.Proofs.ByRecipient
/-!
# The upkeep of the monitors

The arena and the buckets follow the subscriptions: every filter of a subscription that is followed has
a handle of its own, which is in all buckets of the filter, and every handle in use belongs to such a
filter.  Installing and removing subscriptions keeps this up.

Main statements: `Wf.remove`, `Wf.closeConn` and `Wf.install`, with `get?_remove`, `get?_closeConn` and
`install_cases` for who is followed afterwards.
-/

namespace EventRelay

namespace Monitors

/-- Whether a bucket holds a handle. -/
def InBucket (buckets : KeyMap BucketKey Bucket) (key : BucketKey) (h : Nat) : Prop :=
  ∃ bucket, buckets.get? key = some bucket ∧ h ∈ bucket

/-- Arena and buckets agree with the subscriptions that are followed. -/
structure Wf (m : Monitors) : Prop where
  named : ∀ {who monitor}, m.get? who = some monitor → monitor.follower.sub.toRecipient = who
  /-- Every filter has its handle in the arena and in all its buckets. -/
  placed : ∀ {who monitor} {i : Nat} {f : Filter}, m.get? who = some monitor →
    monitor.follower.sub.filters.filters[i]? = some f →
    ∃ h item, monitor.handles[i]? = some h ∧ m.arena.get? h = some item ∧ item.owner = who
      ∧ item.filterIndex = i ∧ ∀ key ∈ BucketKey.ofField f.primaryField, InBucket m.buckets key h
  /-- Every handle in use is that of a filter. -/
  owned : ∀ {h item}, m.arena.get? h = some item → ∃ monitor, m.get? item.owner = some monitor
    ∧ monitor.handles[item.filterIndex]? = some h
    ∧ item.filterIndex < monitor.follower.sub.filters.filters.length
  fresh : ∀ {h item}, m.arena.get? h = some item → h < m.nextHandle

theorem wf_start {n : Nat} : (start n).Wf where
  named h := by cases h
  placed h := by cases h
  owned h := by cases h
  fresh h := by cases h

/-! ### Buckets -/

section

variable {buckets : KeyMap BucketKey Bucket} {h h' : Nat} {key key' : BucketKey}

theorem inBucket_iff : InBucket buckets key h ↔ h ∈ (buckets.get? key).getD .empty := by
  rw [InBucket]
  cases buckets.get? key with
  | none => exact iff_of_false (fun ⟨_, hnone, _⟩ => nomatch hnone) List.not_mem_nil
  | some bucket => simp

theorem inBucket_enter :
    InBucket (enter buckets h key) key' h' ↔ InBucket buckets key' h' ∨ key' = key ∧ h' = h := by
  rw [inBucket_iff, inBucket_iff, enter, KeyMap.get?_insert]
  by_cases hkey : key' = key
  · rw [if_pos hkey, Option.getD_some, OrderedSet.mem_insert, hkey, or_comm, eq_self, true_and]
  · rw [if_neg hkey, or_iff_left fun h => hkey h.1]

/-- A bucket is left by one handle only. -/
theorem inBucket_leave :
    InBucket (leave buckets h key) key' h' ↔ InBucket buckets key' h' ∧ ¬(key' = key ∧ h' = h) := by
  rw [leave]
  split
  · rename_i hnone
    refine (and_iff_left_of_imp fun hin hboth => ?_).symm
    obtain ⟨bucket, hget, -⟩ := hin
    rw [hboth.1, hnone] at hget
    cases hget
  · rename_i bucket hget
    rw [inBucket_iff, inBucket_iff]
    by_cases hkey : key' = key
    · rw [hkey, hget, Option.getD_some, eq_self, true_and, ← ne_eq, ← OrderedSet.mem_erase]
      simp only
      split
      · rename_i hempty
        -- a bucket that is gone holds as much as one that is empty
        have hnil : (bucket.erase h).toList = [] := List.isEmpty_iff.1 hempty
        rw [KeyMap.get?_erase, if_pos rfl, OrderedSet.mem_def, OrderedSet.mem_def, hnil]
        rfl
      · rw [KeyMap.get?_insert, if_pos rfl, Option.getD_some]
    · rw [and_iff_left fun h => hkey h.1]
      simp only
      split
      · rw [KeyMap.get?_erase, if_neg hkey]
      · rw [KeyMap.get?_insert, if_neg hkey]

theorem inBucket_enterAll {keys : List BucketKey} :
    InBucket (keys.foldl (fun buckets key => enter buckets h key) buckets) key' h'
      ↔ InBucket buckets key' h' ∨ key' ∈ keys ∧ h' = h := by
  induction keys generalizing buckets with
  | nil => simp
  | cons key rest ih =>
    rw [List.foldl_cons, ih, inBucket_enter, List.mem_cons, or_and_right, or_assoc]

theorem inBucket_leaveAll {keys : List BucketKey} :
    InBucket (keys.foldl (fun buckets key => leave buckets h key) buckets) key' h'
      ↔ InBucket buckets key' h' ∧ ¬(key' ∈ keys ∧ h' = h) := by
  induction keys generalizing buckets with
  | nil => simp
  | cons key rest ih =>
    rw [List.foldl_cons, ih, inBucket_leave, List.mem_cons, or_and_right, not_or, and_assoc]

end

/-! ### Taking filters away -/

/-- The filters of a monitor and their handles. -/
def pairs (monitor : Monitor) : List (Filter × Nat) :=
  monitor.follower.sub.filters.filters.zip monitor.handles

/-- Taking filters away takes their handles out of the buckets that they list, and no others. -/
theorem inBucket_foldl_removeFilter {ps : List (Filter × Nat)} {m : Monitors} {key : BucketKey}
    {h : Nat} : InBucket (ps.foldl removeFilter m).buckets key h ↔ InBucket m.buckets key h
      ∧ ∀ p ∈ ps, key ∈ BucketKey.ofField p.1.primaryField → h ≠ p.2 := by
  induction ps generalizing m with
  | nil => simp
  | cons p rest ih =>
    have hfirst : InBucket (m.removeFilter p).buckets key h ↔ _ := inBucket_leaveAll
    rw [List.foldl_cons, ih, hfirst, List.forall_mem_cons, not_and, and_assoc]

/-- What taking filters away leaves of arena and buckets. -/
structure Cut (handles : List Nat) (m m' : Monitors) : Prop where
  nextHandle_eq : m'.nextHandle = m.nextHandle
  arena_of_mem : ∀ {h}, h ∈ handles → m'.arena.get? h = none
  arena_of_not_mem : ∀ {h}, h ∉ handles → m'.arena.get? h = m.arena.get? h
  inBucket : ∀ {key h}, h ∉ handles → InBucket m.buckets key h → InBucket m'.buckets key h

theorem cut_foldl {ps : List (Filter × Nat)} {m : Monitors} :
    Cut (ps.map Prod.snd) m (ps.foldl removeFilter m) := by
  induction ps generalizing m with
  | nil => exact ⟨rfl, fun h => absurd h List.not_mem_nil, fun _ => rfl, fun _ hin => hin⟩
  | cons p rest ih =>
    have hrest : Cut (rest.map Prod.snd) (m.removeFilter p) _ := ih
    have harena : ∀ h, (m.removeFilter p).arena.get? h = if h = p.2 then none else m.arena.get? h :=
      fun h => KeyMap.get?_erase
    refine { hrest with
      arena_of_mem := ?arena_of_mem
      arena_of_not_mem := ?arena_of_not_mem
      inBucket := ?inBucket }
    case inBucket =>
      intro key h hh hbucket
      refine inBucket_foldl_removeFilter.2 ⟨hbucket, fun q hq _ heq => hh ?_⟩
      rw [heq]
      exact List.mem_map_of_mem hq
    case arena_of_mem =>
      intro h hh
      by_cases hin : h ∈ rest.map Prod.snd
      · exact hrest.arena_of_mem hin
      · have hp : h = p.2 := (List.mem_cons.1 hh).resolve_right hin
        exact (hrest.arena_of_not_mem hin).trans ((harena h).trans (if_pos hp))
    case arena_of_not_mem =>
      intro h hh
      obtain ⟨hp, hin⟩ := not_or.1 (mt List.mem_cons.2 hh)
      exact (hrest.arena_of_not_mem hin).trans ((harena h).trans (if_neg hp))

/-- The subscriptions do not matter for what becomes of arena and buckets. -/
theorem cut_of_conns {ps : List (Filter × Nat)} {m : Monitors}
    {conns : KeyMap ConnId (KeyMap SubId Monitor)} :
    Cut (ps.map Prod.snd) m (ps.foldl removeFilter { m with conns := conns }) := by
  have hcut : Cut (ps.map Prod.snd) { m with conns := conns } _ := cut_foldl
  exact ⟨hcut.nextHandle_eq, hcut.arena_of_mem, hcut.arena_of_not_mem, hcut.inBucket⟩

theorem conns_foldl {ps : List (Filter × Nat)} {m : Monitors} :
    (ps.foldl removeFilter m).conns = m.conns := by
  induction ps generalizing m with
  | nil => rfl
  | cons p rest ih => exact ih

/-- The handles of some monitors. -/
def handlesOf (ms : List Monitor) : List Nat := (ms.flatMap pairs).map Prod.snd

theorem foldl_uninstall {ms : List Monitor} {m : Monitors} :
    ms.foldl uninstall m = (ms.flatMap pairs).foldl removeFilter m := by
  rw [List.foldl_flatMap]
  rfl

section

variable {m m' : Monitors} {gone : Recipient → Prop} {ms : List Monitor}

/-- When the monitors of some recipients go, a handle goes just if its owner does. -/
theorem Wf.mem_handlesOf (hm : m.Wf)
    (hms : ∀ monitor, monitor ∈ ms ↔ ∃ who, gone who ∧ m.get? who = some monitor) {h : Nat}
    {item : Installed} (hitem : m.arena.get? h = some item) : h ∈ handlesOf ms ↔ gone item.owner := by
  simp only [handlesOf, List.mem_map, List.mem_flatMap, pairs]
  constructor
  · rintro ⟨⟨f, h⟩, ⟨monitor, hmonitor, hzip⟩, rfl⟩
    obtain ⟨who, hwho, hget⟩ := (hms monitor).1 hmonitor
    obtain ⟨i, hi⟩ := List.getElem?_of_mem hzip
    rw [List.getElem?_zip_eq_some] at hi
    obtain ⟨h', item', hh', hitem', howner, -, -⟩ := hm.placed hget hi.1
    cases hh'.symm.trans hi.2
    cases hitem.symm.trans hitem'
    exact howner ▸ hwho
  · intro howner
    obtain ⟨monitor, hget, hhandle, hlt⟩ := hm.owned hitem
    have hzip : (monitor.follower.sub.filters.filters.zip monitor.handles)[item.filterIndex]?
        = some (monitor.follower.sub.filters.filters[item.filterIndex], h) :=
      List.getElem?_zip_eq_some.2 ⟨List.getElem?_eq_getElem hlt, hhandle⟩
    exact ⟨_, ⟨monitor, (hms monitor).2 ⟨_, howner, hget⟩, List.mem_of_getElem? hzip⟩, rfl⟩

/-- The handles that stay are those of the owners that stay. -/
theorem Wf.of_arena_cut (hm : m.Wf)
    (hms : ∀ monitor, monitor ∈ ms ↔ ∃ who, gone who ∧ m.get? who = some monitor)
    (hcut : Cut (handlesOf ms) m m') {h : Nat} {item : Installed}
    (hitem : m'.arena.get? h = some item) : m.arena.get? h = some item ∧ ¬ gone item.owner := by
  by_cases hh : h ∈ handlesOf ms
  · rw [hcut.arena_of_mem hh] at hitem
    cases hitem
  · rw [hcut.arena_of_not_mem hh] at hitem
    exact ⟨hitem, mt (hm.mem_handlesOf hms hitem).2 hh⟩

/-- Taking some of the subscriptions away with all their filters. -/
theorem Wf.cut [DecidablePred gone] (hm : m.Wf)
    (hms : ∀ monitor, monitor ∈ ms ↔ ∃ who, gone who ∧ m.get? who = some monitor)
    (hget : ∀ who, m'.get? who = if gone who then none else m.get? who)
    (hcut : Cut (handlesOf ms) m m') : m'.Wf := by
  refine {
    named := ?named
    placed := ?placed
    owned := ?owned
    fresh := ?fresh }
  case named =>
    intro who monitor hwho
    rw [hget] at hwho
    split at hwho
    · cases hwho
    · exact hm.named hwho
  case placed =>
    intro who monitor i f hwho hf
    rw [hget] at hwho
    split at hwho
    · cases hwho
    · rename_i hstays
      obtain ⟨h, item, hhandle, hitem, howner, hindex, hbuckets⟩ := hm.placed hwho hf
      -- who stays keeps all the handles
      have hh : h ∉ handlesOf ms := by
        rw [hm.mem_handlesOf hms hitem, howner]
        exact hstays
      refine ⟨h, item, hhandle, ?_, howner, hindex, fun key hkey => hcut.inBucket hh (hbuckets key hkey)⟩
      rw [hcut.arena_of_not_mem hh, hitem]
  case owned =>
    intro h item hitem
    obtain ⟨hitem, hstays⟩ := hm.of_arena_cut hms hcut hitem
    obtain ⟨monitor, hwho, hrest⟩ := hm.owned hitem
    refine ⟨monitor, ?_, hrest⟩
    rw [hget, if_neg hstays, hwho]
  case fresh =>
    intro h item hitem
    exact Nat.lt_of_lt_of_eq (hm.fresh (hm.of_arena_cut hms hcut hitem).1) hcut.nextHandle_eq.symm

end

/-! ### Removing subscriptions -/

theorem get?_eq {m : Monitors} {who : Recipient} : m.get? who = ByRecipient.get? m.conns who := rfl

/-- Removing a subscription that is followed. -/
theorem remove_eq {m : Monitors} {who : Recipient} {monitor : Monitor} (h : m.get? who = some monitor) :
    ∃ subs, m.conns.get? who.conn = some subs ∧ subs.get? who.subId = some monitor
      ∧ m.remove who = ({ m with
          conns := if (subs.erase who.subId).isEmpty then m.conns.erase who.conn
            else m.conns.insert who.conn (subs.erase who.subId) } : Monitors).uninstall monitor := by
  rw [get?_eq, ByRecipient.get?] at h
  obtain ⟨subs, hsubs, hmonitor⟩ := Option.bind_eq_some_iff.1 h
  refine ⟨subs, hsubs, hmonitor, ?_⟩
  simp only [remove, hsubs, hmonitor]

theorem remove_eq_self {m : Monitors} {who : Recipient} (h : m.get? who = none) : m.remove who = m := by
  rw [remove]
  cases hsubs : m.conns.get? who.conn with
  | none => rfl
  | some subs =>
    rw [get?_eq, ByRecipient.get?_of_conn hsubs] at h
    simp only [h]

/-- Nobody else is affected when a subscription is removed. -/
theorem get?_remove {m : Monitors} {who x : Recipient} :
    (m.remove who).get? x = if x = who then none else m.get? x := by
  cases h : m.get? who with
  | none =>
    rw [remove_eq_self h]
    split
    · rename_i heq
      rw [heq, h]
    · rfl
  | some monitor =>
    obtain ⟨subs, hsubs, -, hremove⟩ := remove_eq h
    rw [hremove, get?_eq, uninstall, conns_foldl]
    exact ByRecipient.get?_drop hsubs

theorem remove_remove {m : Monitors} {who : Recipient} : (m.remove who).remove who = m.remove who :=
  remove_eq_self (get?_remove.trans (if_pos rfl))

theorem cut_remove {m : Monitors} {who : Recipient} {monitor : Monitor}
    (h : m.get? who = some monitor) : Cut (handlesOf [monitor]) m (m.remove who) := by
  obtain ⟨subs, -, -, hremove⟩ := remove_eq h
  rw [hremove, handlesOf, List.flatMap_singleton]
  exact cut_of_conns

theorem mem_singleton_monitor {m : Monitors} {who : Recipient} {monitor : Monitor}
    (h : m.get? who = some monitor) (x : Monitor) :
    x ∈ [monitor] ↔ ∃ w, w = who ∧ m.get? w = some x := by
  simp [h, eq_comm]

theorem Wf.remove {m : Monitors} (hm : m.Wf) (who : Recipient) : (m.remove who).Wf := by
  cases h : m.get? who with
  | none =>
    rw [remove_eq_self h]
    exact hm
  | some monitor => exact hm.cut (mem_singleton_monitor h) (fun _ => get?_remove) (cut_remove h)

theorem Wf.of_arena_remove {m : Monitors} (hm : m.Wf) {who : Recipient} {h : Nat} {item : Installed}
    (hitem : (m.remove who).arena.get? h = some item) :
    m.arena.get? h = some item ∧ item.owner ≠ who := by
  cases hget : m.get? who with
  | none =>
    rw [remove_eq_self hget] at hitem
    refine ⟨hitem, fun howner => ?_⟩
    obtain ⟨monitor, hmonitor, -⟩ := hm.owned hitem
    rw [howner, hget] at hmonitor
    cases hmonitor
  | some monitor => exact hm.of_arena_cut (mem_singleton_monitor hget) (cut_remove hget) hitem

theorem nextHandle_remove {m : Monitors} {who : Recipient} :
    (m.remove who).nextHandle = m.nextHandle := by
  cases h : m.get? who with
  | none => rw [remove_eq_self h]
  | some monitor => exact (cut_remove h).nextHandle_eq

/-- Closing a connection that somebody is followed on. -/
theorem closeConn_eq {m : Monitors} {conn : ConnId} {subs : KeyMap SubId Monitor}
    (h : m.conns.get? conn = some subs) :
    m.closeConn conn
      = (subs.values.flatMap pairs).foldl removeFilter { m with conns := m.conns.erase conn } := by
  simp only [closeConn, h]
  exact foldl_uninstall

theorem closeConn_eq_self {m : Monitors} {conn : ConnId} (h : m.conns.get? conn = none) :
    m.closeConn conn = m := by
  simp only [closeConn, h]

theorem get?_closeConn {m : Monitors} {conn : ConnId} {x : Recipient} :
    (m.closeConn conn).get? x = if x.conn = conn then none else m.get? x := by
  cases h : m.conns.get? conn with
  | none =>
    rw [closeConn_eq_self h]
    split
    · rename_i hconn
      rw [get?, hconn, h]
      rfl
    · rfl
  | some subs =>
    rw [closeConn_eq h, get?_eq, conns_foldl]
    exact ByRecipient.get?_erase

theorem cut_closeConn {m : Monitors} {conn : ConnId} {subs : KeyMap SubId Monitor}
    (h : m.conns.get? conn = some subs) : Cut (handlesOf subs.values) m (m.closeConn conn) := by
  rw [closeConn_eq h]
  exact cut_of_conns

theorem Wf.closeConn {m : Monitors} (hm : m.Wf) (conn : ConnId) : (m.closeConn conn).Wf := by
  cases h : m.conns.get? conn with
  | none =>
    rw [closeConn_eq_self h]
    exact hm
  | some subs =>
    exact hm.cut (fun _ => ByRecipient.mem_values_iff h) (fun _ => get?_closeConn) (cut_closeConn h)

theorem Wf.of_arena_closeConn {m : Monitors} (hm : m.Wf) {conn : ConnId} {h : Nat} {item : Installed}
    (hitem : (m.closeConn conn).arena.get? h = some item) :
    m.arena.get? h = some item ∧ item.owner.conn ≠ conn := by
  cases hget : m.conns.get? conn with
  | none =>
    rw [closeConn_eq_self hget] at hitem
    refine ⟨hitem, fun howner => ?_⟩
    obtain ⟨monitor, hmonitor, -⟩ := hm.owned hitem
    rw [get?, howner, hget] at hmonitor
    cases hmonitor
  | some subs =>
    exact hm.of_arena_cut (fun _ => ByRecipient.mem_values_iff hget) (cut_closeConn hget) hitem

/-! ### Installing a subscription -/

/-- Giving filters handles puts those into the buckets that the filters list, and into no others. -/
theorem inBucket_foldl_addFilter {who : Recipient} {watermark : Nat} {ps : List (Filter × Nat)}
    {m : Monitors} {key : BucketKey} {h : Nat} :
    InBucket (ps.foldl (addFilter who watermark) m).buckets key h ↔ InBucket m.buckets key h
      ∨ ∃ i p, ps[i]? = some p ∧ key ∈ BucketKey.ofField p.1.primaryField
        ∧ h = m.nextHandle + i := by
  induction ps generalizing m with
  | nil => simp
  | cons p rest ih =>
    have hfirst : InBucket (addFilter who watermark m p).buckets key h ↔ _ := inBucket_enterAll
    have hnext : (addFilter who watermark m p).nextHandle = m.nextHandle + 1 := rfl
    rw [List.foldl_cons, ih, hfirst, hnext, or_assoc]
    refine or_congr_right ⟨?_, ?_⟩
    · rintro (⟨hkey, hh⟩ | ⟨i, q, hq, hkey, hh⟩)
      · exact ⟨0, p, rfl, hkey, hh⟩
      · exact ⟨i + 1, q, hq, hkey, by omega⟩
    · rintro ⟨i, q, hq, hkey, hh⟩
      cases i with
      | zero =>
        cases hq
        exact .inl ⟨hkey, hh⟩
      | succ i => exact .inr ⟨i, q, hq, hkey, by omega⟩

/-- What giving filters handles from the next one on adds to arena and buckets. -/
structure Grown (who : Recipient) (watermark : Nat) (ps : List (Filter × Nat)) (m m' : Monitors) :
    Prop where
  conns_eq : m'.conns = m.conns
  nextHandle_eq : m'.nextHandle = m.nextHandle + ps.length
  arena_of_lt : ∀ {h}, h < m.nextHandle → m'.arena.get? h = m.arena.get? h
  arena_of_ge : ∀ {h}, m.nextHandle + ps.length ≤ h → m'.arena.get? h = m.arena.get? h
  arena_new : ∀ {i : Nat} {p : Filter × Nat}, ps[i]? = some p →
    m'.arena.get? (m.nextHandle + i) = some ⟨who, p.2, watermark⟩
      ∧ ∀ key ∈ BucketKey.ofField p.1.primaryField, InBucket m'.buckets key (m.nextHandle + i)
  inBucket : ∀ {key h}, InBucket m.buckets key h → InBucket m'.buckets key h

theorem grown_foldl {who : Recipient} {watermark : Nat} {ps : List (Filter × Nat)} {m : Monitors} :
    Grown who watermark ps m (ps.foldl (addFilter who watermark) m) := by
  induction ps generalizing m with
  | nil => exact ⟨rfl, rfl, fun _ => rfl, fun _ => rfl, nofun, fun hin => hin⟩
  | cons p rest ih =>
    have hrest : Grown who watermark rest (addFilter who watermark m p) _ := ih
    have hnext : (addFilter who watermark m p).nextHandle = m.nextHandle + 1 := rfl
    have harena : ∀ h, (addFilter who watermark m p).arena.get? h
        = if h = m.nextHandle then some ⟨who, p.2, watermark⟩ else m.arena.get? h :=
      fun h => KeyMap.get?_insert
    refine { hrest with
      nextHandle_eq := ?nextHandle_eq
      arena_of_lt := ?arena_of_lt
      arena_of_ge := ?arena_of_ge
      arena_new := ?arena_new
      inBucket := fun hin => inBucket_foldl_addFilter.2 (.inl hin) }
    case nextHandle_eq =>
      rw [List.foldl_cons, hrest.nextHandle_eq, hnext, List.length_cons]
      omega
    case arena_of_lt =>
      intro h hlt
      rw [List.foldl_cons, hrest.arena_of_lt (by omega), harena, if_neg (by omega)]
    case arena_of_ge =>
      intro h hge
      rw [List.length_cons] at hge
      rw [List.foldl_cons, hrest.arena_of_ge (by omega), harena, if_neg (by omega)]
    case arena_new =>
      intro i q hq
      cases i with
      | zero =>
        cases hq
        refine ⟨?_, fun key hkey => inBucket_foldl_addFilter.2 (.inr ⟨0, p, rfl, hkey, rfl⟩)⟩
        rw [List.foldl_cons, hrest.arena_of_lt (by omega), harena, if_pos (Nat.add_zero _)]
      | succ i =>
        have hq : rest[i]? = some q := hq
        -- the rest is counted from the next handle on
        have hnew := hrest.arena_new hq
        rw [hnext, Nat.add_assoc, Nat.add_comm 1 i] at hnew
        exact hnew

/-- The monitor of a subscription that is installed. -/
def installed (m : Monitors) (follower : Follower) : Monitor :=
  ⟨follower, List.range' (m.remove follower.sub.toRecipient).nextHandle
    follower.sub.filters.filters.length⟩

theorem handles_installed {m : Monitors} {follower : Follower} {i : Nat}
    (hi : i < follower.sub.filters.filters.length) :
    (m.installed follower).handles[i]?
      = some ((m.remove follower.sub.toRecipient).nextHandle + i) := by
  rw [installed, List.getElem?_range' hi, Nat.one_mul]

/-- Either a connection holds as many subscriptions as it may and nobody is followed under the name, or
the subscription is followed from its watermark on and its filters have new handles. -/
theorem install_cases (m : Monitors) (follower : Follower) :
    (m.install follower).1 = m.remove follower.sub.toRecipient
      ∨ (∀ x, (m.install follower).1.get? x =
          if x = follower.sub.toRecipient then some (m.installed follower) else m.get? x)
        ∧ ∃ conns, Grown follower.sub.toRecipient follower.watermark
            follower.sub.filters.filters.zipIdx (m.remove follower.sub.toRecipient)
            { (m.install follower).1 with conns := conns } := by
  simp only [install]
  split
  · exact .inl rfl
  · refine .inr ⟨fun x => ?_, _, grown_foldl⟩
    have hput := @ByRecipient.get?_put Monitor (m.remove follower.sub.toRecipient).conns
      follower.sub.toRecipient x (m.installed follower)
    refine hput.trans ?_
    split
    · rfl
    · rename_i hne
      show (m.remove follower.sub.toRecipient).get? x = m.get? x
      rw [get?_remove, if_neg hne]

/-- Nobody else is affected when a subscription is installed. -/
theorem get?_install_of_ne {m : Monitors} {follower : Follower} {x : Recipient}
    (hx : x ≠ follower.sub.toRecipient) : (m.install follower).1.get? x = m.get? x := by
  rcases install_cases m follower with hrefused | ⟨hget, -⟩
  · rw [hrefused, get?_remove, if_neg hx]
  · rw [hget, if_neg hx]

/-- The handles after an installation: those of the others, and the new ones in the order of the
filters. -/
theorem Wf.of_arena_install {m : Monitors} (hm : m.Wf) {follower : Follower} {h : Nat}
    {item : Installed} (hitem : (m.install follower).1.arena.get? h = some item) :
    m.arena.get? h = some item ∧ item.owner ≠ follower.sub.toRecipient
      ∨ item.owner = follower.sub.toRecipient ∧ item.latestSeq = follower.watermark
        ∧ item.filterIndex < follower.sub.filters.filters.length
        ∧ h = (m.remove follower.sub.toRecipient).nextHandle + item.filterIndex := by
  rcases install_cases m follower with hsame | ⟨-, conns, hgrown⟩
  · rw [hsame] at hitem
    exact .inl (hm.of_arena_remove hitem)
  -- a handle is one of before, one never given out, or one of the new ones in between
  by_cases hlt : h < (m.remove follower.sub.toRecipient).nextHandle
  · exact .inl (hm.of_arena_remove ((hgrown.arena_of_lt hlt).symm.trans hitem))
  by_cases hge : (m.remove follower.sub.toRecipient).nextHandle
      + follower.sub.filters.filters.zipIdx.length ≤ h
  · exact .inl (hm.of_arena_remove ((hgrown.arena_of_ge hge).symm.trans hitem))
  obtain ⟨i, rfl⟩ := Nat.exists_eq_add_of_le (Nat.not_lt.1 hlt)
  rw [List.length_zipIdx] at hge
  have hi : i < follower.sub.filters.filters.length := by omega
  have hp : follower.sub.filters.filters.zipIdx[i]?
      = some (follower.sub.filters.filters[i], i) := by
    rw [List.getElem?_zipIdx, List.getElem?_eq_getElem hi, Option.map_some, Nat.zero_add]
  cases hitem.symm.trans (hgrown.arena_new hp).1
  exact .inr ⟨rfl, rfl, hi, rfl⟩

theorem Wf.install {m : Monitors} (hm : m.Wf) (follower : Follower) : (m.install follower).1.Wf := by
  have hr := hm.remove follower.sub.toRecipient
  rcases install_cases m follower with hsame | ⟨hget, conns, hgrown⟩
  · rw [hsame]
    exact hr
  have hrest : ∀ {x}, x ≠ follower.sub.toRecipient →
      (m.install follower).1.get? x = (m.remove follower.sub.toRecipient).get? x := by
    intro x hx
    rw [get?_install_of_ne hx, get?_remove, if_neg hx]
  refine {
    named := ?named
    placed := ?placed
    owned := ?owned
    fresh := ?fresh }
  case named =>
    intro who monitor hwho
    by_cases hx : who = follower.sub.toRecipient
    · rw [hget, if_pos hx] at hwho
      cases hwho
      exact hx.symm
    · rw [hrest hx] at hwho
      exact hr.named hwho
  case placed =>
    intro who monitor i f hwho hf
    by_cases hx : who = follower.sub.toRecipient
    · rw [hget, if_pos hx] at hwho
      cases hwho
      have hf : follower.sub.filters.filters[i]? = some f := hf
      have hp : follower.sub.filters.filters.zipIdx[i]? = some (f, i) := by
        rw [List.getElem?_zipIdx, hf, Option.map_some, Nat.zero_add]
      obtain ⟨hitem, hkeys⟩ := hgrown.arena_new hp
      exact ⟨_, _, handles_installed (List.getElem?_eq_some_iff.1 hf).1, hitem, hx.symm, rfl, hkeys⟩
    -- the others keep their handles, for those are below the new ones
    · rw [hrest hx] at hwho
      obtain ⟨h, item, hhandle, hitem, howner, hindex, hkeys⟩ := hr.placed hwho hf
      refine ⟨h, item, hhandle, ?_, howner, hindex, fun key hkey => hgrown.inBucket (hkeys key hkey)⟩
      exact (hgrown.arena_of_lt (hr.fresh hitem)).trans hitem
  case owned =>
    intro h item hitem
    rcases hm.of_arena_install hitem with ⟨hitem, hne⟩ | ⟨howner, -, hi, rfl⟩
    · obtain ⟨monitor, hwho, hmore⟩ := hm.owned hitem
      refine ⟨monitor, ?_, hmore⟩
      rw [hget, if_neg hne, hwho]
    · refine ⟨m.installed follower, by rw [hget, if_pos howner], handles_installed hi, hi⟩
  case fresh =>
    intro h item hitem
    -- a handle that is in use was below the next one before, or has just been counted
    have hnext : (m.install follower).1.nextHandle
        = (m.remove follower.sub.toRecipient).nextHandle
          + follower.sub.filters.filters.zipIdx.length := hgrown.nextHandle_eq
    rw [List.length_zipIdx] at hnext
    rcases hm.of_arena_install hitem with ⟨hitem, -⟩ | ⟨-, -, hi, rfl⟩
    · have hlt := hm.fresh hitem
      rw [hnext, nextHandle_remove]
      omega
    · rw [hnext]
      omega

end Monitors

end EventRelay
