import EventRelay.Proofs.Monitors.Register
/-!
# The books of the monitors

The arena, the buckets and the subscriptions of the monitors are kept apart, and after any calls they
say the same: the arena lists every filter that is followed once, a bucket holds just the handles of
the filters that list its key, and nothing is kept that is empty.  A dispatch moves watermarks and marks,
under whatever seq, and touches none of this.

Main statement: `consistency_after`.
-/

namespace EventRelay

namespace Monitors

/-- The filter that an entry of the arena stands for. -/
def filterOf? (m : Monitors) (item : Installed) : Option Filter :=
  (m.get? item.owner).bind fun monitor =>
    monitor.follower.sub.filters.filters[item.filterIndex]?

theorem filterOf?_of_get? {m : Monitors} {item : Installed} {monitor : Monitor}
    (h : m.get? item.owner = some monitor) :
    m.filterOf? item = monitor.follower.sub.filters.filters[item.filterIndex]? := by
  rw [filterOf?, h, Option.bind_some]

/-- No bucket is kept that is empty. -/
def Filled (buckets : KeyMap BucketKey Bucket) : Prop :=
  ∀ key bucket, buckets.get? key = some bucket → bucket.isEmpty = false

/-- Arena, buckets and subscriptions agree, nothing empty is left over, and no connection is beyond its
limit. -/
structure Tidy (m : Monitors) : Prop where
  wf : m.Wf
  length_eq : ∀ {who monitor}, m.get? who = some monitor →
    monitor.handles.length = monitor.follower.sub.filters.filters.length
  /-- What a bucket holds are handles of filters that list its key. -/
  listed : ∀ {key h}, InBucket m.buckets key h → ∃ item f, m.arena.get? h = some item
    ∧ m.filterOf? item = some f ∧ key ∈ BucketKey.ofField f.primaryField
  filled : Filled m.buckets
  populated : ByRecipient.Populated m.conns
  room : ∀ conn, m.connSubs conn ≤ m.maxSubsPerConnection

theorem tidy_start {max : Nat} : (start max).Tidy where
  wf := wf_start
  length_eq h := by cases h
  listed h := by
    obtain ⟨bucket, hget, -⟩ := h
    cases hget
  filled _ _ h := by cases h
  populated _ _ h := by cases h
  room _ := Nat.zero_le _

/-! ### No empty buckets -/

section

variable {buckets : KeyMap BucketKey Bucket} {h : Nat} {key : BucketKey}

theorem isEmpty_eq_false_of_mem {bucket : Bucket} (hh : h ∈ bucket) : bucket.isEmpty = false := by
  rw [OrderedSet.isEmpty, List.isEmpty_eq_false_iff]
  exact List.ne_nil_of_mem hh

theorem Filled.enter (hb : Filled buckets) : Filled (enter buckets h key) := by
  intro key' bucket' hget
  rw [Monitors.enter, KeyMap.get?_insert] at hget
  split at hget
  · cases hget
    exact isEmpty_eq_false_of_mem (OrderedSet.mem_insert.2 (.inl rfl))
  · exact hb _ _ hget

theorem Filled.leave (hb : Filled buckets) : Filled (leave buckets h key) := by
  intro key' bucket' hget
  rw [Monitors.leave] at hget
  split at hget
  · exact hb _ _ hget
  · simp only at hget
    split at hget
    · rw [KeyMap.get?_erase] at hget
      split at hget
      · cases hget
      · exact hb _ _ hget
    · rename_i hleft
      rw [KeyMap.get?_insert] at hget
      split at hget
      · cases hget
        exact Bool.eq_false_iff.2 hleft
      · exact hb _ _ hget

theorem Filled.foldl {keys : List BucketKey}
    {f : KeyMap BucketKey Bucket → BucketKey → KeyMap BucketKey Bucket}
    (hf : ∀ {buckets key}, Filled buckets → Filled (f buckets key)) (hb : Filled buckets) :
    Filled (keys.foldl f buckets) := by
  induction keys generalizing buckets with
  | nil => exact hb
  | cons key rest ih => exact ih (hf hb)

end

variable {m m' : Monitors}

theorem filled_foldl_removeFilter {ps : List (Filter × Nat)} (hb : Filled m.buckets) :
    Filled (ps.foldl removeFilter m).buckets := by
  induction ps generalizing m with
  | nil => exact hb
  | cons p rest ih => exact ih (hb.foldl Filled.leave)

theorem filled_foldl_addFilter {who : Recipient} {watermark : Nat} {ps : List (Filter × Nat)}
    (hb : Filled m.buckets) : Filled (ps.foldl (addFilter who watermark) m).buckets := by
  induction ps generalizing m with
  | nil => exact hb
  | cons p rest ih => exact ih (hb.foldl Filled.enter)

/-! ### Removing subscriptions -/

/-- Who goes takes the handles out of all buckets that hold them. -/
theorem Tidy.listed_cut {gone : Recipient → Prop} [DecidablePred gone] {ms : List Monitor}
    (hm : m.Tidy) (hms : ∀ monitor, monitor ∈ ms ↔ ∃ who, gone who ∧ m.get? who = some monitor)
    (hget : ∀ who, m'.get? who = if gone who then none else m.get? who)
    (hcut : Cut (handlesOf ms) m m') {key : BucketKey} {h : Nat} (hin : InBucket m.buckets key h)
    (hkept : ∀ p ∈ ms.flatMap pairs, key ∈ BucketKey.ofField p.1.primaryField → h ≠ p.2) :
    ∃ item f, m'.arena.get? h = some item ∧ m'.filterOf? item = some f
      ∧ key ∈ BucketKey.ofField f.primaryField := by
  obtain ⟨item, f, hitem, hf, hkey⟩ := hm.listed hin
  obtain ⟨monitor, hmonitor, hhandle, -⟩ := hm.wf.owned hitem
  rw [filterOf?_of_get? hmonitor] at hf
  have hstays : ¬ gone item.owner := by
    intro hgone
    have hzip : (pairs monitor)[item.filterIndex]? = some (f, h) :=
      List.getElem?_zip_eq_some.2 ⟨hf, hhandle⟩
    have hpair : (f, h) ∈ ms.flatMap pairs :=
      List.mem_flatMap.2 ⟨monitor, (hms monitor).2 ⟨_, hgone, hmonitor⟩, List.mem_of_getElem? hzip⟩
    exact hkept _ hpair hkey rfl
  have hnot : h ∉ handlesOf ms := mt (hm.wf.mem_handlesOf hms hitem).1 hstays
  have hmonitor' : m'.get? item.owner = some monitor := by
    rw [hget, if_neg hstays, hmonitor]
  exact ⟨item, f, (hcut.arena_of_not_mem hnot).trans hitem, (filterOf?_of_get? hmonitor').trans hf, hkey⟩

theorem Tidy.cut {gone : Recipient → Prop} [DecidablePred gone] {ms : List Monitor} (hm : m.Tidy)
    (hms : ∀ monitor, monitor ∈ ms ↔ ∃ who, gone who ∧ m.get? who = some monitor)
    {conns : KeyMap ConnId (KeyMap SubId Monitor)}
    (hget : ∀ who, ByRecipient.get? conns who = if gone who then none else m.get? who)
    (hpopulated : ByRecipient.Populated conns)
    (hsize : ∀ conn, ByRecipient.size conns conn ≤ m.connSubs conn) :
    ((ms.flatMap pairs).foldl removeFilter { m with conns := conns }).Tidy := by
  have hcut : Cut (handlesOf ms) m
      ((ms.flatMap pairs).foldl removeFilter { m with conns := conns }) := cut_of_conns
  have hget' : ∀ who, ((ms.flatMap pairs).foldl removeFilter { m with conns := conns }).get? who
      = if gone who then none else m.get? who := by
    intro who
    rw [get?_eq, conns_foldl]
    exact hget who
  refine {
    wf := hm.wf.cut hms hget' hcut
    length_eq := ?length_eq
    listed := ?listed
    filled := filled_foldl_removeFilter hm.filled
    populated := by
      rw [conns_foldl]
      exact hpopulated
    room := ?room }
  case length_eq =>
    intro who monitor hwho
    rw [hget'] at hwho
    split at hwho
    · cases hwho
    · exact hm.length_eq hwho
  case listed =>
    intro key h hin
    obtain ⟨hin, hkept⟩ := inBucket_foldl_removeFilter.1 hin
    exact hm.listed_cut hms hget' hcut hin hkept
  case room =>
    intro conn
    rw [connSubs_eq, conns_foldl, maxSubs_foldl_removeFilter]
    exact Nat.le_trans (hsize conn) (hm.room conn)

theorem Tidy.remove (hm : m.Tidy) (who : Recipient) : (m.remove who).Tidy := by
  cases h : m.get? who with
  | none =>
    rw [remove_eq_self h]
    exact hm
  | some monitor =>
    obtain ⟨subs, hsubs, -, hremove⟩ := remove_eq h
    rw [hremove, uninstall, ← pairs, ← List.flatMap_singleton pairs monitor]
    exact hm.cut (mem_singleton_monitor h) (fun x => ByRecipient.get?_drop hsubs) hm.populated.drop
      fun conn => Nat.le_trans (ByRecipient.size_drop_le hsubs conn) (Nat.le_of_eq connSubs_eq.symm)

theorem Tidy.closeConn (hm : m.Tidy) (conn : ConnId) : (m.closeConn conn).Tidy := by
  cases h : m.conns.get? conn with
  | none =>
    rw [closeConn_eq_self h]
    exact hm
  | some subs =>
    rw [closeConn_eq h]
    exact hm.cut (fun _ => ByRecipient.mem_values_iff h) (fun _ => ByRecipient.get?_erase)
      hm.populated.erase
      fun conn => Nat.le_trans ByRecipient.size_erase_le (Nat.le_of_eq connSubs_eq.symm)

/-- Who is removed makes room. -/
theorem connSubs_remove_lt {who : Recipient} {monitor : Monitor} (h : m.get? who = some monitor) :
    (m.remove who).connSubs who.conn < m.connSubs who.conn := by
  obtain ⟨subs, hsubs, hmonitor, hremove⟩ := remove_eq h
  rw [hremove, connSubs_eq, uninstall, conns_foldl, connSubs_eq]
  exact ByRecipient.size_drop_lt hsubs hmonitor

/-! ### Installing subscriptions -/

/-- An installation in a connection that has room. -/
theorem install_of_room {follower : Follower}
    (hroom : ¬ (m.remove follower.sub.toRecipient).maxSubsPerConnection
      ≤ (m.remove follower.sub.toRecipient).connSubs follower.sub.conn) :
    m.install follower = ({
      follower.sub.filters.filters.zipIdx.foldl
        (addFilter follower.sub.toRecipient follower.watermark) (m.remove follower.sub.toRecipient) with
      conns := (m.remove follower.sub.toRecipient).conns.insert follower.sub.conn
        ((((m.remove follower.sub.toRecipient).conns.get? follower.sub.conn).getD .empty).insert
          follower.sub.subId (m.installed follower)) }, none) := by
  simp only [install]
  exact if_neg hroom

/-- An installation in a connection that has none. -/
theorem install_of_full {follower : Follower}
    (hfull : (m.remove follower.sub.toRecipient).maxSubsPerConnection
      ≤ (m.remove follower.sub.toRecipient).connSubs follower.sub.conn) :
    m.install follower = (m.remove follower.sub.toRecipient,
      some ⟨follower.sub.conn, (m.remove follower.sub.toRecipient).maxSubsPerConnection⟩) := by
  simp only [install]
  exact if_pos hfull

/-- The new handles are in the buckets that their filters list, and the others stay where they are. -/
theorem Tidy.listed_install (hm : m.Tidy) {follower : Follower}
    (hroom : ¬ (m.remove follower.sub.toRecipient).maxSubsPerConnection
      ≤ (m.remove follower.sub.toRecipient).connSubs follower.sub.conn) {key : BucketKey} {h : Nat}
    (hin : InBucket (m.install follower).1.buckets key h) :
    ∃ item f, (m.install follower).1.arena.get? h = some item
      ∧ (m.install follower).1.filterOf? item = some f ∧ key ∈ BucketKey.ofField f.primaryField := by
  have hr := hm.remove follower.sub.toRecipient
  have hget := @get?_install m follower hroom
  have hgrown := @grown_foldl follower.sub.toRecipient follower.watermark
    follower.sub.filters.filters.zipIdx (m.remove follower.sub.toRecipient)
  have harena : (m.install follower).1.arena = (follower.sub.filters.filters.zipIdx.foldl
      (addFilter follower.sub.toRecipient follower.watermark)
      (m.remove follower.sub.toRecipient)).arena := by
    rw [install_of_room hroom]
  rw [install_of_room hroom] at hin
  rw [harena]
  rcases inBucket_foldl_addFilter.1 hin with hin | ⟨i, p, hp, hkey, rfl⟩
  · obtain ⟨item, f, hitem, hf, hkey⟩ := hr.listed hin
    refine ⟨item, f, (hgrown.arena_of_lt (hr.wf.fresh hitem)).trans hitem, ?_, hkey⟩
    have hne : item.owner ≠ follower.sub.toRecipient := by
      intro howner
      rw [filterOf?, howner, get?_remove, if_pos rfl] at hf
      cases hf
    rw [filterOf?, hget, if_neg hne]
    exact hf
  · have hindex : follower.sub.filters.filters[p.2]? = some p.1 := by
      rw [List.getElem?_zipIdx] at hp
      obtain ⟨f, hf, rfl⟩ := Option.map_eq_some_iff.1 hp
      rw [Nat.zero_add, hf]
    have hinstalled : (m.install follower).1.get? follower.sub.toRecipient
        = some (m.installed follower) := by rw [hget, if_pos rfl]
    exact ⟨_, p.1, (hgrown.arena_new hp).1, (filterOf?_of_get? hinstalled).trans hindex, hkey⟩

theorem Tidy.install (hm : m.Tidy) (follower : Follower) : (m.install follower).1.Tidy := by
  have hr := hm.remove follower.sub.toRecipient
  by_cases hroom : (m.remove follower.sub.toRecipient).maxSubsPerConnection
      ≤ (m.remove follower.sub.toRecipient).connSubs follower.sub.conn
  · rw [install_of_full hroom]
    exact hr
  have heq := install_of_room hroom
  refine {
    wf := hm.wf.install follower
    length_eq := ?length_eq
    listed := hm.listed_install hroom
    filled := ?filled
    populated := ?populated
    room := ?room }
  case length_eq =>
    intro who monitor hwho
    rw [get?_install hroom] at hwho
    split at hwho
    · cases hwho
      exact List.length_range'
    · exact hr.length_eq hwho
  case filled =>
    rw [heq]
    exact filled_foldl_addFilter hr.filled
  case populated =>
    rw [heq]
    exact hr.populated.put
  case room =>
    intro conn
    have hbefore := hr.room conn
    rw [maxSubs_remove, connSubs_eq] at hbefore
    rw [maxSubs_install, connSubs_eq, heq]
    refine Nat.le_trans (ByRecipient.size_put_le conn) ?_
    rw [maxSubs_remove, connSubs_eq] at hroom
    split
    · rename_i hconn
      rw [hconn]
      exact Nat.lt_of_not_le hroom
    · exact hbefore

/-- A subscription is only refused where it was not followed, so nothing has been removed for it. -/
theorem Tidy.install_refused (hm : m.Tidy) {follower : Follower}
    (h : (m.install follower).2 ≠ none) : (m.install follower).1 = m := by
  by_cases hroom : (m.remove follower.sub.toRecipient).maxSubsPerConnection
      ≤ (m.remove follower.sub.toRecipient).connSubs follower.sub.conn
  · cases hget : m.get? follower.sub.toRecipient with
    | none => rw [install_of_full hroom, remove_eq_self hget]
    | some monitor =>
      -- with its own place free again, the connection is not full
      have hlt := Nat.lt_of_lt_of_le (connSubs_remove_lt hget) (hm.room _)
      rw [maxSubs_remove] at hroom
      exact absurd hlt (Nat.not_lt.2 hroom)
  · rw [install_of_room hroom] at h
    exact absurd rfl h

/-! ### Dispatching events -/

/-- Monitors that are the same but for watermarks and marks. -/
structure Alike (m m' : Monitors) : Prop where
  get?_eq : ∀ who, ∃ g : Monitor → Monitor, m'.get? who = (m.get? who).map g
    ∧ ∀ monitor, (g monitor).handles = monitor.handles
      ∧ (g monitor).follower.sub = monitor.follower.sub
  arena_eq : ∀ h, ∃ g : Installed → Installed, m'.arena.get? h = (m.arena.get? h).map g
    ∧ ∀ item, (g item).owner = item.owner ∧ (g item).filterIndex = item.filterIndex
  buckets_eq : m'.buckets = m.buckets
  nextHandle_eq : m'.nextHandle = m.nextHandle
  maxSubs_eq : m'.maxSubsPerConnection = m.maxSubsPerConnection
  populated : ByRecipient.Populated m.conns → ByRecipient.Populated m'.conns
  connSubs_eq : ∀ conn, m'.connSubs conn = m.connSubs conn

theorem alike_refl : Alike m m where
  get?_eq _ := ⟨id, Option.map_id.symm ▸ rfl, fun _ => ⟨rfl, rfl⟩⟩
  arena_eq _ := ⟨id, Option.map_id.symm ▸ rfl, fun _ => ⟨rfl, rfl⟩⟩
  buckets_eq := rfl
  nextHandle_eq := rfl
  maxSubs_eq := rfl
  populated h := h
  connSubs_eq _ := rfl

/-- A filter is marked with a seq. -/
theorem Alike.mark (h : Alike m m') {handle seq : Nat} {item : Installed}
    (hitem : m'.arena.get? handle = some item) :
    Alike m { m' with arena := m'.arena.insert handle (item.marked seq) } := by
  refine { h with arena_eq := fun handle' => ?_ }
  obtain ⟨g, hg, hsame⟩ := h.arena_eq handle'
  by_cases heq : handle' = handle
  · refine ⟨fun x => (g x).marked seq, ?_, hsame⟩
    rw [KeyMap.get?_insert, if_pos heq]
    rw [heq, hitem] at hg
    obtain ⟨x, hx, rfl⟩ := Option.map_eq_some_iff.1 hg.symm
    rw [heq, hx, Option.map_some]
  · exact ⟨g, (KeyMap.get?_insert.trans (if_neg heq)).trans hg, hsame⟩

/-- A subscription has got a seq. -/
theorem Alike.move (h : Alike m m') {who : Recipient} {seq : Nat} :
    Alike m (m'.modify who (·.moved seq)) := by
  refine { h with
    get?_eq := fun who' => ?_
    populated := fun hm => (h.populated hm).modify
    connSubs_eq := fun conn => ?_ }
  · obtain ⟨g, hg, hsame⟩ := h.get?_eq who'
    rw [get?_modify, hg]
    split
    · exact ⟨fun x => (g x).moved seq, Option.map_map _ _ _, hsame⟩
    · exact ⟨g, rfl, hsame⟩
  · rw [← h.connSubs_eq, Monitors.connSubs_eq, Monitors.connSubs_eq]
    exact ByRecipient.size_modify

theorem Alike.visit {state : Monitors × List Recipient} (h : Alike m state.1) {seq : Nat} {e : Event}
    {handle : Nat} : Alike m (visit seq e state handle).1 := by
  rw [Monitors.visit]
  split
  · exact h
  · rename_i item hitem
    split
    · exact h
    · split
      · exact h
      · simp only
        split
        · exact h.mark hitem
        · split
          · exact (h.mark hitem).move
          · exact h.mark hitem

/-- A dispatch moves watermarks and marks, and nothing else. -/
theorem alike_dispatch {seq : Nat} {e : Event} : Alike m (m.dispatch seq e).1 := by
  have key : ∀ (hs : List Nat) (state : Monitors × List Recipient), Alike m state.1 →
      Alike m (hs.foldl (Monitors.visit seq e) state).1 := by
    intro hs
    induction hs with
    | nil => exact fun _ h => h
    | cons handle rest ih => exact fun state h => ih _ h.visit
  rw [dispatch_eq]
  exact key _ _ alike_refl

theorem Tidy.of_alike (hm : m.Tidy) (h : Alike m m') : m'.Tidy where
  wf := hm.wf.of_same h.get?_eq h.arena_eq h.buckets_eq h.nextHandle_eq
  length_eq {who monitor'} hwho := by
    obtain ⟨g, hg, hsame⟩ := h.get?_eq who
    obtain ⟨monitor, hmonitor, rfl⟩ := Option.map_eq_some_iff.1 (hg.symm.trans hwho)
    rw [(hsame monitor).1, (hsame monitor).2]
    exact hm.length_eq hmonitor
  listed {key handle} hin := by
    rw [h.buckets_eq] at hin
    obtain ⟨item, f, hitem, hf, hkey⟩ := hm.listed hin
    obtain ⟨g, hg, hsame⟩ := h.arena_eq handle
    obtain ⟨monitor, hmonitor, hf⟩ := Option.bind_eq_some_iff.1 hf
    obtain ⟨g', hg', hsame'⟩ := h.get?_eq item.owner
    refine ⟨g item, f, by rw [hg, hitem, Option.map_some], ?_, hkey⟩
    rw [filterOf?, (hsame item).1, (hsame item).2, hg', hmonitor, Option.map_some, Option.bind_some,
      (hsame' monitor).2, hf]
  filled := h.buckets_eq ▸ hm.filled
  populated := h.populated hm.populated
  room conn := by
    rw [h.connSubs_eq, h.maxSubs_eq]
    exact hm.room conn

/-! ### After any calls -/

theorem Tidy.run (hm : m.Tidy) (c : Call) : (m.run c).Tidy := by
  cases c with
  | install follower => exact hm.install follower
  | remove who => exact hm.remove who
  | closeConn conn => exact hm.closeConn conn
  | dispatch seq e => exact hm.of_alike alike_dispatch

theorem maxSubs_run {c : Call} : (m.run c).maxSubsPerConnection = m.maxSubsPerConnection := by
  cases c with
  | install follower => exact maxSubs_install
  | remove who => exact maxSubs_remove
  | closeConn conn => exact maxSubs_closeConn
  | dispatch seq e => exact maxSubs_dispatch

theorem tidy_after {max : Nat} {calls : List Call} :
    (after max calls).Tidy ∧ (after max calls).maxSubsPerConnection = max := by
  induction calls using List.reverseRecOn with
  | nil => exact ⟨tidy_start, rfl⟩
  | append_singleton calls c ih =>
    rw [after, List.foldl_append]
    exact ⟨ih.1.run c, maxSubs_run.trans ih.2⟩

/-- Every filter that is followed has one entry in the arena, under the handle its monitor has for it. -/
theorem Tidy.existsUnique_handle (hm : m.Tidy) {who : Recipient} {monitor : Monitor}
    (hwho : m.get? who = some monitor) {i : Nat}
    (hi : i < monitor.follower.sub.filters.filters.length) :
    ∃ h, monitor.handles[i]? = some h ∧ ∀ h', h' = h ↔
      ∃ item, m.arena.get? h' = some item ∧ item.owner = who ∧ item.filterIndex = i := by
  obtain ⟨h, item, hhandle, hitem, howner, hindex, -⟩ :=
    hm.wf.placed hwho (List.getElem?_eq_getElem hi)
  refine ⟨h, hhandle, fun h' => ⟨?_, ?_⟩⟩
  · rintro rfl
    exact ⟨item, hitem, howner, hindex⟩
  · rintro ⟨item', hitem', rfl, rfl⟩
    obtain ⟨monitor', hmonitor', hhandle', -⟩ := hm.wf.owned hitem'
    cases hwho.symm.trans hmonitor'
    exact Option.some.inj (hhandle'.symm.trans hhandle)

/-- Every entry of the arena stands for a filter that is followed. -/
theorem Tidy.isSome_filterOf? (hm : m.Tidy) {h : Nat} {item : Installed}
    (hitem : m.arena.get? h = some item) : (m.filterOf? item).isSome := by
  obtain ⟨monitor, hmonitor, -, hlt⟩ := hm.wf.owned hitem
  rw [filterOf?_of_get? hmonitor, List.getElem?_eq_getElem hlt]
  rfl

/-- A handle is in the buckets that its filter lists, and no others. -/
theorem Tidy.inBucket_iff (hm : m.Tidy) {key : BucketKey} {h : Nat} :
    InBucket m.buckets key h ↔ ∃ item f, m.arena.get? h = some item ∧ m.filterOf? item = some f
      ∧ key ∈ BucketKey.ofField f.primaryField := by
  refine ⟨hm.listed, ?_⟩
  rintro ⟨item, f, hitem, hf, hkey⟩
  obtain ⟨monitor, hmonitor, hhandle, -⟩ := hm.wf.owned hitem
  rw [filterOf?_of_get? hmonitor] at hf
  obtain ⟨h', -, hhandle', -, -, -, hkeys⟩ := hm.wf.placed hmonitor hf
  cases hhandle.symm.trans hhandle'
  exact hkeys key hkey

/-- Nothing is left where nobody is followed. -/
theorem Tidy.isEmpty_iff (hm : m.Tidy) : m.isEmpty = true ↔ ∀ who, m.get? who = none := by
  rw [isEmpty, Bool.and_eq_true, Bool.and_eq_true, hm.populated.isEmpty_iff]
  refine ⟨fun h => h.1.1, fun hnone => ⟨⟨hnone, ?arena⟩, ?buckets⟩⟩
  case arena =>
    refine KeyMap.isEmpty_eq_true_iff.2 fun h => Option.eq_none_iff_forall_ne_some.2 fun item hitem => ?_
    obtain ⟨monitor, hmonitor, -⟩ := hm.wf.owned hitem
    cases (hnone _).symm.trans hmonitor
  case buckets =>
    refine KeyMap.isEmpty_eq_true_iff.2 fun key =>
      Option.eq_none_iff_forall_ne_some.2 fun bucket hbucket => ?_
    obtain ⟨h, hh⟩ := List.exists_mem_of_ne_nil _
      (List.isEmpty_eq_false_iff.1 (hm.filled _ _ hbucket))
    obtain ⟨item, f, hitem, -⟩ := hm.listed ⟨bucket, hbucket, hh⟩
    obtain ⟨monitor, hmonitor, -⟩ := hm.wf.owned hitem
    cases (hnone _).symm.trans hmonitor

/-- After any calls, dispatches under whatever seqs among them: every filter of a subscription that is
followed has one entry in the arena, every entry stands for such a filter, a handle is in just the
buckets that its filter lists, no bucket is empty and no connection holds more than it may.  So the
monitors are empty just if nobody is followed, and an installation that is refused changes nothing. -/
theorem consistency_after {max : Nat} {calls : List Call} :
    (∀ who monitor, (after max calls).get? who = some monitor →
      monitor.handles.length = monitor.follower.sub.filters.filters.length
      ∧ ∀ i < monitor.follower.sub.filters.filters.length,
        ∃ h, monitor.handles[i]? = some h ∧ ∀ h', h' = h ↔ ∃ item,
          (after max calls).arena.get? h' = some item ∧ item.owner = who ∧ item.filterIndex = i)
    ∧ (∀ h item, (after max calls).arena.get? h = some item →
      ((after max calls).filterOf? item).isSome)
    ∧ (∀ key h, InBucket (after max calls).buckets key h ↔
      ∃ item f, (after max calls).arena.get? h = some item
        ∧ (after max calls).filterOf? item = some f ∧ key ∈ BucketKey.ofField f.primaryField)
    ∧ (∀ key bucket, (after max calls).buckets.get? key = some bucket → bucket.isEmpty = false)
    ∧ (∀ conn, (after max calls).connSubs conn ≤ max)
    ∧ ((after max calls).isEmpty = true ↔ ∀ who, (after max calls).get? who = none)
    ∧ ∀ follower, ((after max calls).install follower).2 ≠ none →
      ((after max calls).install follower).1 = after max calls := by
  obtain ⟨hm, hmax⟩ := @tidy_after max calls
  have hroom := hm.room
  rw [hmax] at hroom
  exact ⟨fun who monitor hwho => ⟨hm.length_eq hwho, fun i hi => hm.existsUnique_handle hwho hi⟩,
    fun h item => hm.isSome_filterOf?, fun key h => hm.inBucket_iff, hm.filled, hroom, hm.isEmpty_iff,
    fun follower => hm.install_refused⟩

/-- Somebody is followed and has got an event.  The handle 1 is that of the second filter, and it is in
the bucket of the author that this asks for and in no other; and the connection has no room for another
subscription. -/
theorem install_sampleCalls :
    (∀ h, h = 1 ↔ ∃ item, (after 1 (sampleCalls.take 2)).arena.get? h = some item
      ∧ item.owner = Replay.asker ∧ item.filterIndex = 1)
    ∧ (∀ key, InBucket (after 1 (sampleCalls.take 2)).buckets key 1 ↔
      key = .author (Replay.tagged 0x22 10 []).author)
    ∧ ((after 1 (sampleCalls.take 2)).install ⟨⟨⟨1, ⟨"r", by decide +kernel⟩⟩, ⟨[]⟩⟩, 0⟩).1
      = after 1 (sampleCalls.take 2) := by
  obtain ⟨hentries, -, hbuckets, -, -, -, hrefused⟩ := @consistency_after 1 (sampleCalls.take 2)
  refine ⟨?entry, fun key => ?bucket, hrefused _ (by decide +kernel)⟩
  case entry =>
    obtain ⟨monitor, hmonitor⟩ := Option.isSome_iff_exists.1
      (show ((after 1 (sampleCalls.take 2)).get? Replay.asker).isSome by decide +kernel)
    have hhandles : ((after 1 (sampleCalls.take 2)).get? Replay.asker).map Monitor.handles
        = some [0, 1] := by decide +kernel
    obtain ⟨hlength, hentry⟩ := hentries _ _ hmonitor
    rw [hmonitor, Option.map_some, Option.some_inj] at hhandles
    obtain ⟨h, hhandle, hiff⟩ := hentry 1 (by rw [← hlength, hhandles]; decide)
    rw [hhandles] at hhandle
    cases hhandle
    exact hiff
  case bucket =>
    have hitem : (after 1 (sampleCalls.take 2)).arena.get? 1 = some ⟨Replay.asker, 1, 2⟩ := by
      decide +kernel
    have hkeys : ((after 1 (sampleCalls.take 2)).filterOf? ⟨Replay.asker, 1, 2⟩).map
        (fun f => BucketKey.ofField f.primaryField)
        = some [.author (Replay.tagged 0x22 10 []).author] := by decide +kernel
    obtain ⟨f, hf, hlist⟩ := Option.map_eq_some_iff.1 hkeys
    rw [hbuckets]
    constructor
    · rintro ⟨item, f', hitem', hf', hkey⟩
      cases hitem.symm.trans hitem'
      cases hf.symm.trans hf'
      rw [hlist] at hkey
      exact List.mem_singleton.1 hkey
    · rintro rfl
      exact ⟨_, f, hitem, hf, hlist ▸ List.mem_singleton_self _⟩

end Monitors

end EventRelay
