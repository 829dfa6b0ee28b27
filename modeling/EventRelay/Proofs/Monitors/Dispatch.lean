import EventRelay.Proofs.Monitors.Upkeep
import EventRelay.Proofs.Scan.Plans
/-!
# Dispatch

A filter that accepts an event has a bucket that the event is shown to, so showing an event bucket by
bucket finds every subscription that accepts it.  The marks on filters and subscriptions keep a
subscription from getting a seq twice; they lose nothing as long as no filter is marked further than
its subscription and the events dispatched before.

Main statement: `Wf.dispatch` (what a dispatch does, and who gets the event).
-/

namespace EventRelay

/-- A filter that accepts an event is in a bucket that the event is shown to. -/
theorem BucketKey.exists_mem_ofField {f : Filter} {e : Event} (h : f.accepts e = true) :
    ∃ key ∈ ofField f.primaryField, key ∈ ofEvent e := by
  obtain ⟨-, -, hids, hauthors, hkinds, htags⟩ := Filter.accepts_iff.1 h
  rw [Filter.primaryField, ofEvent]
  cases hi : f.ids with
  | some ids => exact ⟨.id e.id, List.mem_map_of_mem (hids _ hi), by simp⟩
  | none =>
    cases ht : Filter.fewestValues f.tags with
    | some t =>
      obtain ⟨name, values⟩ := t
      obtain ⟨value, hvalue, htag⟩ := htags _ (Filter.mem_of_fewestValues ht)
      refine ⟨.tag (Stem.ofTag name value), List.mem_map_of_mem hvalue, ?_⟩
      have hmem : BucketKey.tag (Stem.ofTag name value)
          ∈ e.tags.map fun t => BucketKey.tag (Stem.ofTag t.name t.value) :=
        List.mem_map_of_mem (f := fun t : Tag => BucketKey.tag (Stem.ofTag t.name t.value)) htag
      exact List.mem_append_left _ (List.mem_append_right _ hmem)
    | none =>
      cases ha : f.authors with
      | some authors => exact ⟨.author e.author, List.mem_map_of_mem (hauthors _ ha), by simp⟩
      | none =>
        cases hk : f.kinds with
        | some kinds => exact ⟨.kind e.kind, List.mem_map_of_mem (hkinds _ hk), by simp⟩
        | none => exact ⟨.other, by simp [ofField], by simp⟩

/-- A monitor that has got everything up to a seq. -/
def Monitor.moved (monitor : Monitor) (seq : Nat) : Monitor :=
  { monitor with follower := { monitor.follower with watermark := seq } }

/-- A filter that has been shown everything up to a seq. -/
def Installed.marked (item : Installed) (seq : Nat) : Installed := { item with latestSeq := seq }

namespace Monitors

/-- Watermarks and marks do not matter for the upkeep. -/
theorem Wf.of_same {m m' : Monitors} (hm : m.Wf)
    (hget : ∀ who, ∃ g : Monitor → Monitor, m'.get? who = (m.get? who).map g
      ∧ ∀ monitor, (g monitor).handles = monitor.handles
        ∧ (g monitor).follower.sub = monitor.follower.sub)
    (harena : ∀ h, ∃ g : Installed → Installed, m'.arena.get? h = (m.arena.get? h).map g
      ∧ ∀ item, (g item).owner = item.owner ∧ (g item).filterIndex = item.filterIndex)
    (hbuckets : m'.buckets = m.buckets) (hnext : m'.nextHandle = m.nextHandle) : m'.Wf := by
  refine {
    named := ?named
    placed := ?placed
    owned := ?owned
    fresh := ?fresh }
  case named =>
    intro who monitor' hwho
    obtain ⟨g, hg, hsame⟩ := hget who
    rw [hg] at hwho
    obtain ⟨monitor, hmonitor, rfl⟩ := Option.map_eq_some_iff.1 hwho
    rw [(hsame monitor).2]
    exact hm.named hmonitor
  case placed =>
    intro who monitor' i f hwho hf
    obtain ⟨g, hg, hsame⟩ := hget who
    rw [hg] at hwho
    obtain ⟨monitor, hmonitor, rfl⟩ := Option.map_eq_some_iff.1 hwho
    rw [(hsame monitor).2] at hf
    obtain ⟨h, item, hhandle, hitem, howner, hindex, hkeys⟩ := hm.placed hmonitor hf
    obtain ⟨g', hg', hsame'⟩ := harena h
    refine ⟨h, g' item, ?_, ?_, (hsame' item).1.trans howner, (hsame' item).2.trans hindex, ?_⟩
    · rw [(hsame monitor).1, hhandle]
    · rw [hg', hitem, Option.map_some]
    · rw [hbuckets]
      exact hkeys
  case owned =>
    intro h item' hitem'
    obtain ⟨g', hg', hsame'⟩ := harena h
    rw [hg'] at hitem'
    obtain ⟨item, hitem, rfl⟩ := Option.map_eq_some_iff.1 hitem'
    obtain ⟨monitor, hmonitor, hhandle, hlt⟩ := hm.owned hitem
    obtain ⟨g, hg, hsame⟩ := hget item.owner
    rw [(hsame' item).1, (hsame' item).2]
    refine ⟨g monitor, ?_, ?_, ?_⟩
    · rw [hg, hmonitor, Option.map_some]
    · rw [(hsame monitor).1, hhandle]
    · rw [(hsame monitor).2]
      exact hlt
  case fresh =>
    intro h item' hitem'
    obtain ⟨g', hg', -⟩ := harena h
    rw [hg'] at hitem'
    obtain ⟨item, hitem, -⟩ := Option.map_eq_some_iff.1 hitem'
    rw [hnext]
    exact hm.fresh hitem

/-! ### The handles that are visited -/

/-- The handles of the filters that an event is shown to, in order. -/
def handlesFor (m : Monitors) (e : Event) : List Nat :=
  (BucketKey.ofEvent e).flatMap fun key => ((m.buckets.get? key).map OrderedSet.toList).getD []

theorem buckets_visit {seq : Nat} {e : Event} {state : Monitors × List Recipient} {h : Nat} :
    (visit seq e state h).1.buckets = state.1.buckets := by
  rw [visit]
  split
  · rfl
  · split
    · rfl
    · split
      · rfl
      · simp only
        split
        · rfl
        · split <;> rfl

theorem buckets_foldl_visit {seq : Nat} {e : Event} {hs : List Nat} {state : Monitors × List Recipient} :
    (hs.foldl (visit seq e) state).1.buckets = state.1.buckets := by
  induction hs generalizing state with
  | nil => rfl
  | cons h rest ih => exact ih.trans buckets_visit

theorem visitBucket_eq {seq : Nat} {e : Event} {state : Monitors × List Recipient} {key : BucketKey} :
    visitBucket seq e state key
      = (((state.1.buckets.get? key).map OrderedSet.toList).getD []).foldl (visit seq e) state := by
  rw [visitBucket]
  cases state.1.buckets.get? key with
  | none => rfl
  | some bucket => rfl

/-- The buckets stay while an event is shown, so the handles to visit are known before. -/
theorem dispatch_eq {m : Monitors} {seq : Nat} {e : Event} :
    m.dispatch seq e = (m.handlesFor e).foldl (visit seq e) (m, []) := by
  -- showing an event bucket by bucket does not change the buckets still to be looked up
  have key : ∀ (keys : List BucketKey) (state : Monitors × List Recipient),
      state.1.buckets = m.buckets →
      keys.foldl (visitBucket seq e) state
        = (keys.flatMap fun key => ((m.buckets.get? key).map OrderedSet.toList).getD []).foldl
            (visit seq e) state := by
    intro keys
    induction keys with
    | nil => intro state _; rfl
    | cons k rest ih =>
      intro state hstate
      rw [List.foldl_cons, visitBucket_eq, hstate, List.flatMap_cons, List.foldl_append]
      exact ih _ (buckets_foldl_visit.trans hstate)
  exact key _ _ rfl

theorem get?_modify {m : Monitors} {who x : Recipient} {g : Monitor → Monitor} :
    (m.modify who g).get? x = if x = who then (m.get? x).map g else m.get? x :=
  ByRecipient.get?_modify

/-- The filters have been shown nothing beyond a seq but what their owners have got. -/
def Settled (m : Monitors) (n : Nat) : Prop :=
  ∀ h item monitor, m.arena.get? h = some item → m.get? item.owner = some monitor →
    item.latestSeq ≤ max monitor.follower.watermark n

/-! ### One visit -/

section

variable {m : Monitors} {n seq : Nat} {e : Event}

/-- Whether a filter is to get an event to its owner. -/
structure Calls (m : Monitors) (seq : Nat) (e : Event) (item : Installed) : Prop where
  exists_filter : ∃ monitor f, m.get? item.owner = some monitor ∧ monitor.follower.watermark < seq
    ∧ monitor.follower.sub.filters.filters[item.filterIndex]? = some f ∧ f.accepts e = true

/-- What is true of the monitors while an event is shown to them that they all had not been shown. -/
structure Shown (m : Monitors) (seq : Nat) (e : Event) (visited : List Nat)
    (state : Monitors × List Recipient) : Prop where
  nodup : state.2.Nodup
  found : ∀ who ∈ state.2, ∃ monitor, m.get? who = some monitor ∧ monitor.follower.watermark < seq
    ∧ monitor.follower.sub.filters.accepts e = true
  get?_eq : ∀ who, state.1.get? who =
    if who ∈ state.2 then (m.get? who).map (·.moved seq) else m.get? who
  /-- A filter that is marked with the seq has got the event to its owner if it accepts it. -/
  arena_eq : ∀ h, state.1.arena.get? h = m.arena.get? h ∨
    ∃ item, m.arena.get? h = some item ∧ state.1.arena.get? h = some (item.marked seq)
      ∧ (Calls m seq e item → item.owner ∈ state.2)
  visited : ∀ h ∈ visited, ∀ item, m.arena.get? h = some item → Calls m seq e item →
    item.owner ∈ state.2
  buckets_eq : state.1.buckets = m.buckets
  nextHandle_eq : state.1.nextHandle = m.nextHandle

theorem shown_start : Shown m seq e [] (m, []) where
  nodup := .nil
  found _ h := absurd h List.not_mem_nil
  get?_eq _ := by rw [if_neg List.not_mem_nil]
  arena_eq _ := .inl rfl
  visited _ h := absurd h List.not_mem_nil
  buckets_eq := rfl
  nextHandle_eq := rfl

/-- A visit that changes nothing, of a filter that has nothing to do. -/
theorem Shown.skip {visited : List Nat} {state : Monitors × List Recipient}
    (hs : Shown m seq e visited state) {h : Nat}
    (hdone : ∀ item, m.arena.get? h = some item → Calls m seq e item → item.owner ∈ state.2) :
    Shown m seq e (h :: visited) state := by
  refine { hs with visited := ?_ }
  intro h' hh'
  rcases List.mem_cons.1 hh' with rfl | hh'
  · exact hdone
  · exact hs.visited h' hh'

/-- The state after the filter of a handle has been marked and, perhaps, has got the event to its
owner. -/
theorem Shown.mark {visited : List Nat} {state : Monitors × List Recipient}
    (hs : Shown m seq e visited state) {h : Nat} {item : Installed} (hitem : m.arena.get? h = some item)
    {state' : Monitors × List Recipient} (hnodup : state'.2.Nodup) (hsub : state.2 ⊆ state'.2)
    (hfound : ∀ who ∈ state'.2, ∃ monitor, m.get? who = some monitor
      ∧ monitor.follower.watermark < seq ∧ monitor.follower.sub.filters.accepts e = true)
    (hget : ∀ who, state'.1.get? who =
      if who ∈ state'.2 then (m.get? who).map (·.moved seq) else m.get? who)
    (harena : state'.1.arena = state.1.arena.insert h (item.marked seq))
    (hcalls : Calls m seq e item → item.owner ∈ state'.2)
    (hbuckets : state'.1.buckets = state.1.buckets)
    (hnext : state'.1.nextHandle = state.1.nextHandle) : Shown m seq e (h :: visited) state' where
  nodup := hnodup
  found := hfound
  get?_eq := hget
  arena_eq h' := by
    rw [harena, KeyMap.get?_insert]
    by_cases hh : h' = h
    · rw [if_pos hh, hh]
      exact .inr ⟨item, hitem, rfl, hcalls⟩
    · rw [if_neg hh]
      refine (hs.arena_eq h').imp_right ?_
      rintro ⟨item', hitem', hmarked, hcalls'⟩
      exact ⟨item', hitem', hmarked, fun hc => hsub (hcalls' hc)⟩
  visited h' hh' item' hitem' hc := by
    rcases List.mem_cons.1 hh' with rfl | hh'
    · cases hitem.symm.trans hitem'
      exact hcalls hc
    · exact hsub (hs.visited h' hh' item' hitem' hc)
  buckets_eq := hbuckets.trans hs.buckets_eq
  nextHandle_eq := hnext.trans hs.nextHandle_eq

section

variable {visited : List Nat} {state : Monitors × List Recipient} {h : Nat} {item item' : Installed}

/-- What is found for an owner who has not got the event is as it was at the start. -/
theorem Shown.get?_of_not_mem (hs : Shown m seq e visited state) {who : Recipient}
    (hwho : who ∉ state.2) : state.1.get? who = m.get? who := by
  rw [hs.get?_eq, if_neg hwho]

/-- An owner who is not past the event has not got it. -/
theorem Shown.get?_of_lt (hs : Shown m seq e visited state) {who : Recipient} {monitor : Monitor}
    (hwho : state.1.get? who = some monitor) (hlt : monitor.follower.watermark < seq) :
    who ∉ state.2 ∧ m.get? who = some monitor := by
  have hnew : who ∉ state.2 := by
    intro hmem
    rw [hs.get?_eq, if_pos hmem] at hwho
    obtain ⟨monitor, -, rfl⟩ := Option.map_eq_some_iff.1 hwho
    exact Nat.lt_irrefl seq hlt
  exact ⟨hnew, (hs.get?_of_not_mem hnew).symm.trans hwho⟩

/-- The filter of a handle at the start, and whether it has been shown the event since. -/
theorem Shown.exists_item (hs : Shown m seq e visited state)
    (hitem' : state.1.arena.get? h = some item') :
    ∃ item, m.arena.get? h = some item ∧ item'.owner = item.owner
      ∧ (item' = item ∨ item' = item.marked seq ∧ (Calls m seq e item → item.owner ∈ state.2)) := by
  rcases hs.arena_eq h with heq | ⟨item, hitem, heq, hcalls⟩
  · exact ⟨item', heq.symm.trans hitem', rfl, .inl rfl⟩
  · cases hitem'.symm.trans heq
    exact ⟨item, hitem, rfl, .inr ⟨rfl, hcalls⟩⟩

/-- A filter that the event does not go to its owner for. -/
theorem Shown.reject (hs : Shown m seq e visited state) (hitem : m.arena.get? h = some item)
    (hnot : ¬ Calls m seq e item) :
    Shown m seq e (h :: visited)
      ({ state.1 with arena := state.1.arena.insert h (item.marked seq) }, state.2) :=
  hs.mark hitem hs.nodup (List.Subset.refl _) hs.found hs.get?_eq rfl (fun hc => absurd hc hnot) rfl rfl

/-- A filter that gets the event to its owner. -/
theorem Shown.deliver (hs : Shown m seq e visited state) (hitem : m.arena.get? h = some item)
    (hnew : item.owner ∉ state.2) {monitor : Monitor} (hmonitor : m.get? item.owner = some monitor)
    (hlt : monitor.follower.watermark < seq)
    (haccepts : monitor.follower.sub.filters.accepts e = true) :
    Shown m seq e (h :: visited)
      (({ state.1 with arena := state.1.arena.insert h (item.marked seq) } : Monitors).modify
        item.owner (·.moved seq), state.2 ++ [item.owner]) := by
  refine hs.mark hitem ?_ (List.subset_append_left _ _) ?_ ?_ rfl ?_ rfl rfl
  · refine List.nodup_append.2 ⟨hs.nodup, List.pairwise_singleton _ _, ?_⟩
    rintro _ hfound _ hwho rfl
    rw [List.mem_singleton.1 hwho] at hfound
    exact hnew hfound
  · intro who hwho
    rcases List.mem_append.1 hwho with hwho | hwho
    · exact hs.found who hwho
    · rw [List.mem_singleton.1 hwho]
      exact ⟨monitor, hmonitor, hlt, haccepts⟩
  · intro who
    have hget : (state.1.modify item.owner (·.moved seq)).get? who = _ := get?_modify
    refine Eq.trans hget ?_
    by_cases hwho : who = item.owner
    · have hmem : who ∈ state.2 ++ [item.owner] :=
        List.mem_append_right _ (List.mem_singleton.2 hwho)
      rw [if_pos hwho, if_pos hmem, hwho, hs.get?_of_not_mem hnew]
    · rw [if_neg hwho, hs.get?_eq]
      simp only [List.mem_append, List.mem_singleton, hwho, or_false]
  · intro _
    exact List.mem_append_right _ List.mem_cons_self

/-- A filter or an owner that is past the event has nothing to do with it any more. -/
theorem Shown.mem_of_passed (hs : Shown m seq e visited state) (hn : m.Settled n) (hseq : n < seq)
    (hitem' : state.1.arena.get? h = some item') {monitor' : Monitor}
    (hmonitor' : state.1.get? item'.owner = some monitor')
    (hpassed : seq ≤ item'.latestSeq ∨ seq ≤ monitor'.follower.watermark)
    (hitem : m.arena.get? h = some item) (hcalls : Calls m seq e item) : item.owner ∈ state.2 := by
  apply Classical.byContradiction
  intro hmem
  obtain ⟨item₀, hitem₀, howner, hmark⟩ := hs.exists_item hitem'
  cases hitem.symm.trans hitem₀
  obtain ⟨monitor, f, hmonitor, hlt, -⟩ := id hcalls
  rw [howner, hs.get?_of_not_mem hmem] at hmonitor'
  cases hmonitor'.symm.trans hmonitor
  rcases hpassed with hle | hle
  · rcases hmark with rfl | ⟨-, hgot⟩
    · have hmark := hn _ _ _ hitem hmonitor
      omega
    · exact hmem (hgot hcalls)
  · exact absurd hle (Nat.not_le.2 hlt)

theorem Shown.visit (hs : Shown m seq e visited state) (hn : m.Settled n) (hseq : n < seq) (h : Nat) :
    Shown m seq e (h :: visited) (visit seq e state h) := by
  obtain ⟨m', found⟩ := state
  rw [Monitors.visit]
  cases hitem' : m'.arena.get? h with
  | none =>
    apply hs.skip
    intro item hitem
    rcases hs.arena_eq h with heq | ⟨_, -, heq, -⟩
    · cases hitem.symm.trans (heq.symm.trans hitem')
    · cases heq.symm.trans hitem'
  | some item' =>
    obtain ⟨item, hitem, howner, hmark⟩ := hs.exists_item hitem'
    simp only
    cases hmonitor' : m'.get? item'.owner with
    | none =>
      apply hs.skip
      rintro item₀ hitem₀ ⟨monitor, f, hmonitor, -⟩
      cases hitem.symm.trans hitem₀
      apply Classical.byContradiction
      intro hmem
      rw [howner] at hmonitor'
      cases hmonitor'.symm.trans ((hs.get?_of_not_mem hmem).trans hmonitor)
    | some monitor' =>
      simp only
      split
      · rename_i hpassed
        apply hs.skip
        intro item₀ hitem₀
        exact hs.mem_of_passed hn hseq hitem' hmonitor' hpassed hitem₀
      · rename_i hnot
        rw [not_or, Nat.not_le, Nat.not_le] at hnot
        -- the filter has not been marked, or it would have been passed over
        have hsame : item' = item := by
          rcases hmark with rfl | ⟨rfl, -⟩
          · rfl
          · exact absurd hnot.1 (Nat.lt_irrefl seq)
        subst hsame
        obtain ⟨hnew, hmonitor⟩ := hs.get?_of_lt hmonitor' hnot.2
        split
        · rename_i hf
          refine hs.reject hitem ?_
          rintro ⟨monitor, f, hmonitor₀, -, hf₀, -⟩
          cases hmonitor.symm.trans hmonitor₀
          cases hf.symm.trans hf₀
        · rename_i f hf
          split
          · rename_i haccepts
            refine hs.deliver hitem hnew hmonitor hnot.2 ?_
            exact List.any_eq_true.2 ⟨f, List.mem_of_getElem? hf, haccepts⟩
          · rename_i hrejects
            refine hs.reject hitem ?_
            rintro ⟨monitor, f₀, hmonitor₀, -, hf₀, haccepts⟩
            cases hmonitor.symm.trans hmonitor₀
            cases hf.symm.trans hf₀
            exact absurd haccepts hrejects

theorem Shown.foldl {handles : List Nat} (hs : Shown m seq e visited state) (hn : m.Settled n)
    (hseq : n < seq) :
    Shown m seq e (handles.reverse ++ visited) (handles.foldl (Monitors.visit seq e) state) := by
  induction handles generalizing visited state with
  | nil => exact hs
  | cons h rest ih =>
    rw [List.reverse_cons, List.append_assoc]
    exact ih (hs.visit hn hseq h)

end

/-- A filter that is to get an event to its owner is among those the event is shown to. -/
theorem Wf.mem_handlesFor (hm : m.Wf) {who : Recipient} {monitor : Monitor}
    (hwho : m.get? who = some monitor) (hlt : monitor.follower.watermark < seq)
    (haccepts : monitor.follower.sub.filters.accepts e = true) :
    ∃ h item, h ∈ m.handlesFor e ∧ m.arena.get? h = some item ∧ item.owner = who
      ∧ Calls m seq e item := by
  obtain ⟨f, hf, hfaccepts⟩ := List.any_eq_true.1 haccepts
  obtain ⟨i, hi⟩ := List.getElem?_of_mem hf
  obtain ⟨h, item, -, hitem, howner, hindex, hkeys⟩ := hm.placed hwho hi
  obtain ⟨key, hkey, hevent⟩ := BucketKey.exists_mem_ofField hfaccepts
  obtain ⟨bucket, hbucket, hmem⟩ := hkeys key hkey
  refine ⟨h, item, ?_, hitem, howner, ⟨monitor, f, ?_, hlt, ?_, hfaccepts⟩⟩
  · refine List.mem_flatMap.2 ⟨key, hevent, ?_⟩
    rw [hbucket]
    exact hmem
  · rw [howner, hwho]
  · rw [hindex, hi]

end

/-! ### What a dispatch does -/

theorem settled_start {k n : Nat} : (start k).Settled n := by
  intro h item monitor hitem
  cases hitem

theorem Settled.mono {m : Monitors} {n n' : Nat} (hn : m.Settled n) (hle : n ≤ n') :
    m.Settled n' := by
  intro h item monitor hitem hmonitor
  have hmark := hn _ _ _ hitem hmonitor
  omega

theorem Settled.remove {m : Monitors} {n : Nat} (hn : m.Settled n) (hm : m.Wf) (who : Recipient) :
    (m.remove who).Settled n := by
  intro h item monitor hitem hmonitor
  obtain ⟨hitem, hne⟩ := hm.of_arena_remove hitem
  rw [get?_remove, if_neg hne] at hmonitor
  exact hn _ _ _ hitem hmonitor

theorem Settled.closeConn {m : Monitors} {n : Nat} (hn : m.Settled n) (hm : m.Wf) (conn : ConnId) :
    (m.closeConn conn).Settled n := by
  intro h item monitor hitem hmonitor
  obtain ⟨hitem, hne⟩ := hm.of_arena_closeConn hitem
  rw [get?_closeConn, if_neg hne] at hmonitor
  exact hn _ _ _ hitem hmonitor

theorem Settled.install {m : Monitors} {n : Nat} (hn : m.Settled n) (hm : m.Wf)
    (follower : Follower) : (m.install follower).1.Settled n := by
  rcases install_cases m follower with hsame | ⟨hget, -⟩
  · rw [hsame]
    exact hn.remove hm _
  · intro h item monitor hitem hmonitor
    rw [hget] at hmonitor
    rcases hm.of_arena_install hitem with ⟨hitem, hne⟩ | ⟨howner, hmark, -⟩
    · rw [if_neg hne] at hmonitor
      exact hn _ _ _ hitem hmonitor
    · rw [if_pos howner] at hmonitor
      cases hmonitor
      rw [hmark]
      exact Nat.le_max_left _ _

/-- The monitors after an event has been shown to them, and who gets it. -/
structure Dispatched (m : Monitors) (seq : Nat) (e : Event) (m' : Monitors) (out : List Recipient) :
    Prop where
  wf : m'.Wf
  settled : m'.Settled seq
  nodup : out.Nodup
  mem_iff : ∀ {who}, who ∈ out ↔ ∃ monitor, m.get? who = some monitor
    ∧ monitor.follower.watermark < seq ∧ monitor.follower.sub.filters.accepts e = true
  get?_eq : ∀ {who}, m'.get? who =
    if who ∈ out then (m.get? who).map (·.moved seq) else m.get? who

/-- Every subscription that accepts an event and is not past it gets the event, once. -/
theorem Wf.dispatch {m : Monitors} (hm : m.Wf) {n seq : Nat} (hn : m.Settled n) (hlt : n < seq)
    (e : Event) : Dispatched m seq e (m.dispatch seq e).1 (m.dispatch seq e).2 := by
  have hs : Shown m seq e ((m.handlesFor e).reverse ++ []) (m.dispatch seq e) := by
    rw [dispatch_eq]
    exact shown_start.foldl hn hlt
  have hget : ∀ who, ∃ g : Monitor → Monitor, (m.dispatch seq e).1.get? who = (m.get? who).map g
      ∧ ∀ monitor, (g monitor).handles = monitor.handles
        ∧ (g monitor).follower.sub = monitor.follower.sub := by
    intro who
    rw [hs.get?_eq]
    split
    · exact ⟨(·.moved seq), rfl, fun _ => ⟨rfl, rfl⟩⟩
    · exact ⟨id, Option.map_id.symm ▸ rfl, fun _ => ⟨rfl, rfl⟩⟩
  refine ⟨?_, ?_, hs.nodup, ?_, fun {who} => hs.get?_eq who⟩
  · refine hm.of_same hget ?_ hs.buckets_eq hs.nextHandle_eq
    intro h
    rcases hs.arena_eq h with heq | ⟨item, hitem, heq, -⟩
    · exact ⟨id, by rw [heq, Option.map_id, id], fun _ => ⟨rfl, rfl⟩⟩
    · exact ⟨(·.marked seq), by rw [heq, hitem, Option.map_some], fun _ => ⟨rfl, rfl⟩⟩
  · intro h item' monitor' hitem' hmonitor'
    obtain ⟨item, hitem, howner, hmark⟩ := hs.exists_item hitem'
    rcases hmark with rfl | ⟨rfl, -⟩
    · rw [hs.get?_eq] at hmonitor'
      split at hmonitor'
      · rename_i hgot
        obtain ⟨monitor, hmonitor, hseq, -⟩ := hs.found _ hgot
        rw [hmonitor] at hmonitor'
        cases hmonitor'
        have hmark := hn _ _ _ hitem hmonitor
        show item'.latestSeq ≤ max seq seq
        omega
      · have hmark := hn _ _ _ hitem hmonitor'
        omega
    · exact Nat.le_max_right _ _
  · intro who
    constructor
    · exact hs.found who
    · rintro ⟨monitor, hwho, hseq, haccepts⟩
      -- one of its filters accepts the event, and the handle of that filter has been visited
      obtain ⟨h, item, hmem, hitem, rfl, hcalls⟩ := hm.mem_handlesFor hwho hseq haccepts
      refine hs.visited h ?_ item hitem hcalls
      exact List.mem_append_left _ (List.mem_reverse.2 hmem)

end Monitors

end EventRelay
