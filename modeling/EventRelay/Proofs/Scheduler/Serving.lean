import EventRelay.Scheduler
import EventRelay.Proofs.ByRecipient
import EventRelay.Proofs.Replay.Outlook
/-!
# Who is served

Seen from outside, a scheduler is a map from subscriptions to the replays that serve them.  Registry
and replays agree: a subscription that is registered has a replay that is not dead, and no two of them
share one.  So what an operation does is said by what it does to that map.

Main statements: `serving_remove`, `serving_closeConn`, `add_cases` and `process_cases`.
-/

namespace EventRelay

/-- A replay whose subscription has been removed. -/
def Replay.killed (r : Replay) : Replay := { r with dead := true }

theorem Replay.Sound.killed {r : Replay} (h : r.Sound) : r.killed.Sound :=
  ⟨h.tally, h.found_eq_nil, h.scan⟩

namespace Scheduler

/-- The replay that serves a subscription. -/
def serving (s : Scheduler) (who : Recipient) : Option Replay :=
  (s.idOf? who).bind s.replays.get?

/-- Registry, replays and queue agree. -/
structure Wf (s : Scheduler) : Prop where
  serves : ∀ {who id}, s.idOf? who = some id →
    ∃ r, s.replays.get? id = some r ∧ r.dead = false ∧ r.follower.sub.toRecipient = who
  registered : ∀ {id r}, s.replays.get? id = some r → r.dead = false →
    s.idOf? r.follower.sub.toRecipient = some id
  fresh : ∀ {id r}, s.replays.get? id = some r → id < s.nextId
  sound : ∀ {id r}, s.replays.get? id = some r → r.Sound
  /-- Every replay waits for a turn. -/
  queued : ∀ {id r}, s.replays.get? id = some r → id ∈ s.ready

theorem wf_start {c : Config} : (start c).Wf where
  serves h := by cases h
  registered h := by cases h
  fresh h := by cases h
  sound h := by cases h
  queued h := by cases h

section

variable {s s' : Scheduler} {who x : Recipient}

theorem idOf?_eq : s.idOf? who = ByRecipient.get? s.registry who := rfl

theorem serving_of_idOf? {id : Nat} (h : s.idOf? who = some id) :
    s.serving who = s.replays.get? id := by
  rw [serving, h, Option.bind_some]

theorem serving_of_none (h : s.idOf? who = none) : s.serving who = none := by
  rw [serving, h, Option.bind_none]

/-- Who is registered is served. -/
theorem Wf.isSome_serving (hs : s.Wf) : (s.serving who).isSome = s.contains who := by
  rw [contains]
  cases hid : s.idOf? who with
  | none =>
    rw [serving_of_none hid]
    rfl
  | some id =>
    obtain ⟨r, hr, -⟩ := hs.serves hid
    rw [serving_of_idOf? hid, hr]
    rfl

/-- Where nobody waits for a turn, nobody is served. -/
theorem Wf.serving_of_isIdle (hs : s.Wf) (hidle : s.isIdle = true) : s.serving who = none := by
  cases hid : s.idOf? who with
  | none => exact serving_of_none hid
  | some id =>
    obtain ⟨r, hr, -⟩ := hs.serves hid
    have hready := hs.queued hr
    rw [List.isEmpty_iff.1 hidle] at hready
    exact absurd hready List.not_mem_nil

theorem Wf.recipient_of_serving (hs : s.Wf) {r : Replay} (h : s.serving who = some r) :
    r.follower.sub.toRecipient = who := by
  obtain ⟨id, hid, hr⟩ := Option.bind_eq_some_iff.1 h
  obtain ⟨r', hr', -, hwho⟩ := hs.serves hid
  cases hr.symm.trans hr'
  exact hwho

theorem Wf.sound_of_serving (hs : s.Wf) {r : Replay} (h : s.serving who = some r) : r.Sound := by
  obtain ⟨id, -, hr⟩ := Option.bind_eq_some_iff.1 h
  exact hs.sound hr

/-- No two subscriptions share a replay. -/
theorem Wf.eq_of_idOf? (hs : s.Wf) {id : Nat} (h : s.idOf? who = some id)
    (h' : s.idOf? x = some id) : x = who := by
  obtain ⟨r, hr, -, hwho⟩ := hs.serves h
  obtain ⟨r', hr', -, hx⟩ := hs.serves h'
  cases hr.symm.trans hr'
  exact hx.symm.trans hwho

/-! ### Removing subscriptions -/

theorem get?_unregister {registry : KeyMap ConnId (KeyMap SubId Nat)} :
    ByRecipient.get? (unregister registry who) x
      = if x = who then none else ByRecipient.get? registry x := by
  cases h : registry.get? who.conn with
  | none =>
    simp only [unregister, h]
    split
    · rename_i heq
      rw [heq, ByRecipient.get?, h]
      rfl
    · rfl
  | some subs =>
    simp only [unregister, h]
    exact ByRecipient.get?_drop h

theorem idOf?_remove : (s.remove who).idOf? x = if x = who then none else s.idOf? x := by
  rw [remove]
  cases s.idOf? who with
  | none => exact get?_unregister
  | some id => exact get?_unregister

theorem registry_remove : (s.remove who).registry = unregister s.registry who := by
  rw [remove]
  cases s.idOf? who with
  | none => rfl
  | some id => rfl

theorem unregister_unregister {registry : KeyMap ConnId (KeyMap SubId Nat)} :
    unregister (unregister registry who) who = unregister registry who := by
  cases h : registry.get? who.conn with
  | none => simp only [unregister, h]
  | some subs =>
    have hcut : unregister registry who = if (subs.erase who.subId).isEmpty then
        registry.erase who.conn else registry.insert who.conn (subs.erase who.subId) := by
      simp only [unregister, h]
    rw [hcut]
    -- a connection left without names is gone, in any other the name is gone
    split
    · have hgone : (registry.erase who.conn).get? who.conn = none :=
        KeyMap.get?_erase.trans (if_pos rfl)
      simp only [unregister, hgone]
    · rename_i hsome
      have hleft : (registry.insert who.conn (subs.erase who.subId)).get? who.conn
          = some (subs.erase who.subId) := KeyMap.get?_insert.trans (if_pos rfl)
      simp only [unregister, hleft, KeyMap.erase_erase, hsome, KeyMap.insert_insert]
      rfl

/-- What has been removed is not there to be removed again. -/
theorem remove_remove : (s.remove who).remove who = s.remove who := by
  have hnone : (s.remove who).idOf? who = none := idOf?_remove.trans (if_pos rfl)
  have hcut : (s.remove who).remove who
      = { s.remove who with registry := unregister (s.remove who).registry who } := by
    rw [remove, hnone]
  rw [hcut, registry_remove, unregister_unregister, ← registry_remove]

theorem get?_replays_remove {id : Nat} : (s.remove who).replays.get? id
    = if s.idOf? who = some id then (s.replays.get? id).map Replay.killed else s.replays.get? id := by
  rw [remove]
  cases h : s.idOf? who with
  | none => rw [if_neg nofun]
  | some id' =>
    refine Eq.trans (KeyMap.get?_modify (f := Replay.killed)) ?_
    simp only [Option.some.injEq, eq_comm]

theorem nextId_remove : (s.remove who).nextId = s.nextId := by
  rw [remove]
  cases s.idOf? who with
  | none => rfl
  | some id => rfl

theorem ready_remove : (s.remove who).ready = s.ready := by
  rw [remove]
  cases s.idOf? who with
  | none => rfl
  | some id => rfl

theorem config_remove : (s.remove who).config = s.config := by
  rw [remove]
  cases s.idOf? who with
  | none => rfl
  | some id => rfl

theorem registry_foldl_kill {ids : List Nat} : (ids.foldl kill s).registry = s.registry := by
  induction ids generalizing s with
  | nil => rfl
  | cons id rest ih => exact ih

theorem nextId_foldl_kill {ids : List Nat} : (ids.foldl kill s).nextId = s.nextId := by
  induction ids generalizing s with
  | nil => rfl
  | cons id rest ih => exact ih

theorem ready_foldl_kill {ids : List Nat} : (ids.foldl kill s).ready = s.ready := by
  induction ids generalizing s with
  | nil => rfl
  | cons id rest ih => exact ih

theorem config_foldl_kill {ids : List Nat} : (ids.foldl kill s).config = s.config := by
  induction ids generalizing s with
  | nil => rfl
  | cons id rest ih => exact ih

theorem get?_replays_foldl_kill {ids : List Nat} {id : Nat} : (ids.foldl kill s).replays.get? id
    = if id ∈ ids then (s.replays.get? id).map Replay.killed else s.replays.get? id := by
  induction ids generalizing s with
  | nil => rw [if_neg List.not_mem_nil, List.foldl_nil]
  | cons id' rest ih =>
    have hkill : (s.kill id').replays.get? id
        = if id = id' then (s.replays.get? id).map Replay.killed else s.replays.get? id :=
      KeyMap.get?_modify
    -- killing twice is killing once
    have htwice : ∀ o : Option Replay, (o.map Replay.killed).map Replay.killed
        = o.map Replay.killed := by
      intro o
      cases o <;> rfl
    rw [List.foldl_cons, ih, hkill]
    by_cases hid : id = id'
    · rw [if_pos hid, if_pos (List.mem_cons.2 (.inl hid)), htwice, ite_self]
    · rw [if_neg hid]
      simp only [List.mem_cons, hid, false_or]

theorem Wf.not_gone {gone : Recipient → Prop} (hs : s.Wf) {id : Nat} (hid : s.idOf? who = some id)
    (hwho : ¬ gone who) : ∀ x, gone x → s.idOf? x ≠ some id := by
  intro x hx hid'
  rw [hs.eq_of_idOf? hid hid'] at hx
  exact hwho hx

/-- Some of the subscriptions are taken out of the registry and their replays are marked dead. -/
structure Cut (gone : Recipient → Prop) [DecidablePred gone] (s s' : Scheduler) : Prop where
  idOf?_eq : ∀ x, s'.idOf? x = if gone x then none else s.idOf? x
  replay_of_gone : ∀ {x id}, gone x → s.idOf? x = some id →
    s'.replays.get? id = (s.replays.get? id).map Replay.killed
  replay_of_stays : ∀ {id}, (∀ x, gone x → s.idOf? x ≠ some id) →
    s'.replays.get? id = s.replays.get? id
  nextId_eq : s'.nextId = s.nextId
  ready_eq : s'.ready = s.ready

variable {gone : Recipient → Prop} [DecidablePred gone]

/-- A replay after a cut is one before it, dead if its subscription is gone. -/
theorem Cut.exists_replay (h : Cut gone s s') {id : Nat} {r' : Replay}
    (hr' : s'.replays.get? id = some r') : ∃ r, s.replays.get? id = some r
      ∧ ((∃ x, gone x ∧ s.idOf? x = some id) ∧ r' = r.killed
        ∨ (∀ x, gone x → s.idOf? x ≠ some id) ∧ r' = r) := by
  by_cases hgone : ∃ x, gone x ∧ s.idOf? x = some id
  · obtain ⟨x, hx, hid⟩ := hgone
    rw [h.replay_of_gone hx hid] at hr'
    obtain ⟨r, hr, rfl⟩ := Option.map_eq_some_iff.1 hr'
    exact ⟨r, hr, .inl ⟨⟨x, hx, hid⟩, rfl⟩⟩
  · have hstays : ∀ x, gone x → s.idOf? x ≠ some id := fun x hx hid => hgone ⟨x, hx, hid⟩
    rw [h.replay_of_stays hstays] at hr'
    exact ⟨r', hr', .inr ⟨hstays, rfl⟩⟩

theorem Cut.serving_eq (hs : s.Wf) (h : Cut gone s s') :
    s'.serving x = if gone x then none else s.serving x := by
  by_cases hx : gone x
  · rw [if_pos hx, serving_of_none]
    rw [h.idOf?_eq, if_pos hx]
  · rw [if_neg hx]
    have hid' : s'.idOf? x = s.idOf? x := by rw [h.idOf?_eq, if_neg hx]
    cases hid : s.idOf? x with
    | none => rw [serving_of_none hid, serving_of_none (hid'.trans hid)]
    | some id =>
      rw [serving_of_idOf? hid, serving_of_idOf? (hid'.trans hid),
        h.replay_of_stays (hs.not_gone hid hx)]

theorem Wf.cut (hs : s.Wf) (h : Cut gone s s') : s'.Wf where
  serves {who id} hid := by
    rw [h.idOf?_eq] at hid
    split at hid
    · cases hid
    · rename_i hwho
      obtain ⟨r, hr, hrest⟩ := hs.serves hid
      exact ⟨r, (h.replay_of_stays (hs.not_gone hid hwho)).trans hr, hrest⟩
  registered {id r'} hr' hdead := by
    obtain ⟨r, hr, ⟨-, rfl⟩ | ⟨hstays, rfl⟩⟩ := h.exists_replay hr'
    · cases hdead
    · have hid := hs.registered hr hdead
      rw [h.idOf?_eq, if_neg fun hgone => hstays _ hgone hid, hid]
  fresh {id r'} hr' := by
    obtain ⟨r, hr, -⟩ := h.exists_replay hr'
    rw [h.nextId_eq]
    exact hs.fresh hr
  sound {id r'} hr' := by
    obtain ⟨r, hr, ⟨-, rfl⟩ | ⟨-, rfl⟩⟩ := h.exists_replay hr'
    · exact (hs.sound hr).killed
    · exact hs.sound hr
  queued {id r'} hr' := by
    obtain ⟨r, hr, -⟩ := h.exists_replay hr'
    rw [h.ready_eq]
    exact hs.queued hr

theorem cut_remove : Cut (· = who) s (s.remove who) where
  idOf?_eq _ := idOf?_remove
  replay_of_gone hx hid := by
    rw [get?_replays_remove, if_pos (hx ▸ hid)]
  replay_of_stays hstays := by
    rw [get?_replays_remove, if_neg (hstays who rfl)]
  nextId_eq := nextId_remove
  ready_eq := ready_remove

theorem Wf.remove (hs : s.Wf) (who : Recipient) : (s.remove who).Wf := hs.cut cut_remove

/-- Nobody else is affected when a subscription is removed. -/
theorem Wf.serving_remove (hs : s.Wf) :
    (s.remove who).serving x = if x = who then none else s.serving x := cut_remove.serving_eq hs

theorem cut_closeConn {conn : ConnId} : Cut (·.conn = conn) s (s.closeConn conn) := by
  cases h : s.registry.get? conn with
  | none =>
    have hself : s.closeConn conn = s := by simp only [closeConn, h]
    have hnone : ∀ x : Recipient, x.conn = conn → s.idOf? x = none := by
      intro x hx
      rw [idOf?, hx, h, Option.bind_none]
    rw [hself]
    refine ⟨?_, ?_, fun _ => rfl, rfl, rfl⟩
    · intro x
      split
      · exact hnone x ‹_›
      · rfl
    · intro x id hx hid
      cases (hnone x hx).symm.trans hid
  | some subs =>
    have hfold : s.closeConn conn
        = subs.values.foldl kill { s with registry := s.registry.erase conn } := by
      simp only [closeConn, h]
    have hmem : ∀ {id}, id ∈ subs.values ↔ ∃ x : Recipient, x.conn = conn ∧ s.idOf? x = some id :=
      ByRecipient.mem_values_iff h
    rw [hfold]
    refine {
      nextId_eq := nextId_foldl_kill
      ready_eq := ready_foldl_kill
      idOf?_eq := ?idOf?_eq
      replay_of_gone := ?replay_of_gone
      replay_of_stays := ?replay_of_stays }
    case idOf?_eq =>
      intro x
      rw [Scheduler.idOf?_eq, registry_foldl_kill]
      exact ByRecipient.get?_erase
    case replay_of_gone =>
      intro x id hx hid
      rw [get?_replays_foldl_kill, if_pos (hmem.2 ⟨x, hx, hid⟩)]
    case replay_of_stays =>
      intro id hstays
      rw [get?_replays_foldl_kill, if_neg]
      rintro hid
      obtain ⟨x, hx, hid⟩ := hmem.1 hid
      exact hstays x hx hid

theorem config_closeConn {conn : ConnId} : (s.closeConn conn).config = s.config := by
  rw [closeConn]
  split
  · rfl
  · exact config_foldl_kill

theorem Wf.closeConn (hs : s.Wf) (conn : ConnId) : (s.closeConn conn).Wf := hs.cut cut_closeConn

theorem Wf.serving_closeConn (hs : s.Wf) {conn : ConnId} :
    (s.closeConn conn).serving x = if x.conn = conn then none else s.serving x :=
  cut_closeConn.serving_eq hs

/-! ### Taking a subscription on -/

/-- The scheduler with a new replay, which gets a number of its own and the next turn. -/
def enlist (s : Scheduler) (r : Replay) : Scheduler :=
  { s with
    registry := s.registry.insert r.follower.sub.conn
      (((s.registry.get? r.follower.sub.conn).getD .empty).insert r.follower.sub.subId s.nextId)
    replays := s.replays.insert s.nextId r
    ready := s.nextId :: s.ready
    nextId := s.nextId + 1 }

theorem add_eq {sub : Subscription} {watermark live : Nat} :
    s.add sub watermark live =
      if s.config.maxSubsPerConnection.toNat ≤ (s.remove sub.toRecipient).connSubs sub.conn + live then
        (s.remove sub.toRecipient, some ⟨sub.conn, s.config.maxSubsPerConnection.toNat⟩)
      else ((s.remove sub.toRecipient).enlist
        (.start ⟨sub, watermark⟩ s.config.authorKindCap s.config.logScans), none) := by
  have hconfig : (s.remove sub.toRecipient).config = s.config := config_remove
  rw [enlist, ← hconfig]
  simp only [add, hconfig]
  split
  · rfl
  · rfl

theorem config_add {sub : Subscription} {watermark live : Nat} :
    (s.add sub watermark live).1.config = s.config := by
  rw [add_eq]
  split
  · exact config_remove
  · exact config_remove

/-- A name is cleared before a subscription is taken on under it. -/
theorem add_remove {sub : Subscription} {watermark live : Nat} :
    (s.remove sub.toRecipient).add sub watermark live = s.add sub watermark live := by
  simp only [add, remove_remove]

theorem idOf?_enlist {r : Replay} : (s.enlist r).idOf? x =
    if x = r.follower.sub.toRecipient then some s.nextId else s.idOf? x := ByRecipient.get?_put

/-- A replay that is put in under a number that is new, or is that of its subscription. -/
theorem Wf.put (hs : s.Wf) {id : Nat} {r : Replay} (hr : r.Sound) (hdead : r.dead = false)
    (hidOf? : ∀ x, s'.idOf? x = if x = r.follower.sub.toRecipient then some id else s.idOf? x)
    (hget : ∀ n, s'.replays.get? n = if n = id then some r else s.replays.get? n)
    (hnumber : ∀ {x}, s.idOf? x = some id → x = r.follower.sub.toRecipient)
    (hsubscription : ∀ {n}, s.idOf? r.follower.sub.toRecipient = some n → n = id)
    (hid : id < s'.nextId) (hnext : s.nextId ≤ s'.nextId)
    (hready : ∀ n, n = id ∨ n ∈ s.ready → n ∈ s'.ready) :
    s'.Wf ∧ ∀ x, s'.serving x = if x = r.follower.sub.toRecipient then some r else s.serving x := by
  -- the number is nobody else's, so the others keep their replays
  have hold : ∀ {x n}, x ≠ r.follower.sub.toRecipient → s.idOf? x = some n →
      s'.replays.get? n = s.replays.get? n := by
    intro x n hx hn
    rw [hget, if_neg]
    rintro rfl
    exact hx (hnumber hn)
  refine ⟨⟨?serves, ?registered, ?fresh, ?sound, ?queued⟩, ?serving⟩
  case serves =>
    intro who n hn
    rw [hidOf?] at hn
    split at hn
    · rename_i hwho
      cases hn
      exact ⟨r, (hget id).trans (if_pos rfl), hdead, hwho.symm⟩
    · rename_i hwho
      obtain ⟨r', hr', hrest⟩ := hs.serves hn
      exact ⟨r', (hold hwho hn).trans hr', hrest⟩
  case registered =>
    intro n r' hr' hdead'
    rw [hget] at hr'
    split at hr'
    · rename_i hn
      cases hr'
      rw [hidOf?, if_pos rfl, hn]
    · rename_i hn
      have hregistered := hs.registered hr' hdead'
      rw [hidOf?, if_neg, hregistered]
      intro hwho
      exact hn (hsubscription (hwho ▸ hregistered))
  case fresh =>
    intro n r' hr'
    rw [hget] at hr'
    split at hr'
    · rename_i hn
      rw [hn]
      exact hid
    · exact Nat.lt_of_lt_of_le (hs.fresh hr') hnext
  case sound =>
    intro n r' hr'
    rw [hget] at hr'
    split at hr'
    · cases hr'
      exact hr
    · exact hs.sound hr'
  case queued =>
    intro n r' hr'
    rw [hget] at hr'
    split at hr'
    · rename_i hn
      exact hready n (.inl hn)
    · exact hready n (.inr (hs.queued hr'))
  case serving =>
    intro x
    by_cases hx : x = r.follower.sub.toRecipient
    · rw [if_pos hx, serving_of_idOf? ((hidOf? x).trans (if_pos hx)), hget, if_pos rfl]
    · have hsame : s'.idOf? x = s.idOf? x := (hidOf? x).trans (if_neg hx)
      rw [if_neg hx]
      cases hn : s.idOf? x with
      | none => rw [serving_of_none hn, serving_of_none (hsame.trans hn)]
      | some n => rw [serving_of_idOf? hn, serving_of_idOf? (hsame.trans hn), hold hx hn]

theorem Wf.enlist (hs : s.Wf) {r : Replay} (hr : r.Sound) (hdead : r.dead = false)
    (hnone : s.idOf? r.follower.sub.toRecipient = none) :
    (s.enlist r).Wf ∧ ∀ x, (s.enlist r).serving x =
      if x = r.follower.sub.toRecipient then some r else s.serving x := by
  refine hs.put hr hdead (fun _ => idOf?_enlist) (fun _ => KeyMap.get?_insert) ?_ ?_
    (Nat.lt_succ_self _) (Nat.le_succ _) fun n hn => List.mem_cons.2 hn
  · intro x hx
    obtain ⟨r', hr', -⟩ := hs.serves hx
    exact absurd (hs.fresh hr') (Nat.lt_irrefl _)
  · intro n hn
    cases hnone.symm.trans hn

/-- A subscription taken on is served from the start; one refused is no longer served at all. -/
theorem Wf.add_cases (hs : s.Wf) (sub : Subscription) (watermark live : Nat) :
    ((s.add sub watermark live).2.isNone = false
        ∧ (s.add sub watermark live).1 = s.remove sub.toRecipient)
      ∨ ((s.add sub watermark live).2.isNone = true ∧ (s.add sub watermark live).1.Wf
        ∧ ∃ cap logScans, ∀ x, (s.add sub watermark live).1.serving x =
          if x = sub.toRecipient then some (Replay.start ⟨sub, watermark⟩ cap logScans)
          else s.serving x) := by
  rw [add_eq]
  split
  · exact .inl ⟨rfl, rfl⟩
  · right
    obtain ⟨hwf, hserving⟩ := (hs.remove sub.toRecipient).enlist
      (Replay.sound_start : (Replay.start ⟨sub, watermark⟩ s.config.authorKindCap
        s.config.logScans).Sound) rfl (idOf?_remove.trans (if_pos rfl))
    refine ⟨rfl, hwf, s.config.authorKindCap, s.config.logScans, fun x => ?_⟩
    rw [hserving, hs.serving_remove]
    show (if x = sub.toRecipient then _ else _) = _
    split
    · rfl
    · rfl

/-! ### Turns -/

/-- A replay that waits for another turn takes the place of the one that had this turn. -/
theorem Wf.resume (hs : s.Wf) {id : Nat} {r r' : Replay} (hr : s.replays.get? id = some r)
    (hdead : r.dead = false) (hr' : r'.Sound) (hdead' : r'.dead = r.dead)
    (hfollower : r'.follower = r.follower) (hidOf? : ∀ x, s'.idOf? x = s.idOf? x)
    (hreplays : s'.replays = s.replays.insert id r') (hnext : s'.nextId = s.nextId)
    (hready : ∀ n ∈ s.ready, n ∈ s'.ready) :
    s'.Wf ∧ ∀ x, s'.serving x = if x = r.follower.sub.toRecipient then some r' else s.serving x := by
  have hid := hs.registered hr hdead
  rw [← hfollower] at hid ⊢
  refine hs.put hr' (hdead'.trans hdead) (fun x => ?_) (fun n => ?_) (fun hx => hs.eq_of_idOf? hid hx)
    (fun hn => ?_) (hnext ▸ hs.fresh hr) (Nat.le_of_eq hnext.symm) (fun n hn => ?_)
  · rw [hidOf?]
    split
    · rename_i hx
      rw [hx, hid]
    · rfl
  · rw [hreplays, KeyMap.get?_insert]
  · cases hid.symm.trans hn
    rfl
  · rcases hn with rfl | hn
    · exact hready n (hs.queued hr)
    · exact hready n hn

/-- Dropping a replay that serves nobody affects nobody. -/
theorem Wf.discard (hs : s.Wf) {id : Nat} (hfree : ∀ x, s.idOf? x ≠ some id)
    (hidOf? : ∀ x, s'.idOf? x = s.idOf? x)
    (hget : ∀ n, s'.replays.get? n = if n = id then none else s.replays.get? n)
    (hnext : s'.nextId = s.nextId) (hready : ∀ n ∈ s.ready, n ≠ id → n ∈ s'.ready) :
    s'.Wf ∧ ∀ x, s'.serving x = s.serving x := by
  have hold : ∀ {n r}, s'.replays.get? n = some r → s.replays.get? n = some r := by
    intro n r hr
    rw [hget] at hr
    split at hr
    · cases hr
    · exact hr
  have hkeep : ∀ {x n}, s.idOf? x = some n → s'.replays.get? n = s.replays.get? n := by
    intro x n hn
    rw [hget, if_neg]
    rintro rfl
    exact hfree x hn
  refine ⟨⟨?serves, ?registered, ?fresh, ?sound, ?queued⟩, ?serving⟩
  case serves =>
    intro who n hn
    rw [hidOf?] at hn
    obtain ⟨r, hr, hrest⟩ := hs.serves hn
    exact ⟨r, (hkeep hn).trans hr, hrest⟩
  case registered =>
    intro n r hr hdead
    rw [hidOf?]
    exact hs.registered (hold hr) hdead
  case fresh =>
    intro n r hr
    rw [hnext]
    exact hs.fresh (hold hr)
  case sound =>
    intro n r hr
    exact hs.sound (hold hr)
  case queued =>
    intro n r hr
    refine hready n (hs.queued (hold hr)) ?_
    rintro rfl
    rw [hget, if_pos rfl] at hr
    cases hr
  case serving =>
    intro x
    rw [serving, serving, hidOf?]
    cases hn : s.idOf? x with
    | none => rfl
    | some n => exact hkeep hn

/-- When a replay is complete, both it and its place in the registry go. -/
theorem Wf.retire (hs : s.Wf) {id : Nat} (hid : s.idOf? who = some id) {ready : List Nat}
    (hready : ∀ n ∈ s.ready, n ≠ id → n ∈ ready) :
    (({ s with ready, replays := s.replays.erase id } : Scheduler).remove who).Wf
      ∧ ∀ x, (({ s with ready, replays := s.replays.erase id } : Scheduler).remove who).serving x
        = if x = who then none else s.serving x := by
  -- out of the registry, the number serves nobody and its replay can be dropped
  have hfree : ∀ x, (s.remove who).idOf? x ≠ some id := by
    intro x hx
    rw [idOf?_remove] at hx
    split at hx
    · cases hx
    · rename_i hne
      exact hne (hs.eq_of_idOf? hid hx)
  have hidOf? : ∀ x, (({ s with ready, replays := s.replays.erase id } : Scheduler).remove who).idOf? x
      = (s.remove who).idOf? x := by
    intro x
    rw [idOf?_remove, idOf?_remove]
    rfl
  have hget : ∀ n, (({ s with ready, replays := s.replays.erase id } : Scheduler).remove who).replays.get? n
      = if n = id then none else (s.remove who).replays.get? n := by
    intro n
    rw [get?_replays_remove, get?_replays_remove, KeyMap.get?_erase]
    by_cases hn : n = id
    · rw [if_pos hn, if_pos hn, Option.map_none, ite_self]
    · rw [if_neg hn, if_neg hn]
      rfl
  obtain ⟨hwf, hserving⟩ := (hs.remove who).discard hfree hidOf? hget
    (by rw [nextId_remove, nextId_remove]) (by rw [ready_remove, ready_remove]; exact hready)
  exact ⟨hwf, fun x => (hserving x).trans hs.serving_remove⟩

theorem config_process {v : View} {clock : Clock} {f : Faults} :
    (s.process v clock f).scheduler.config = s.config := by
  rw [process]
  split
  · rfl
  · simp only
    split
    · rfl
    · split
      · rfl
      · split
        · rfl
        · rfl
        · exact config_remove

/-- What a turn comes to if a replay runs. -/
structure Turned (s : Scheduler) (v : View) (who : Recipient) (r : Replay) (slice : Replay.Slice)
    (turn : Turn) : Prop where
  serving : s.serving who = some r
  served : Replay.Served v r slice
  delivered : turn.delivered = (r.deliveredSince slice.replay).map fun seq => (who, seq)
  others : ∀ x, x ≠ who → turn.scheduler.serving x = s.serving x
  /-- The replay is complete and serves nobody any more, or it waits. -/
  finished :
    (slice.outcome = .ok true ∧ turn.finished = .ok (some slice.replay.follower)
      ∧ turn.scheduler.serving who = none)
    ∨ ((∀ follower, turn.finished ≠ .ok (some follower))
      ∧ turn.scheduler.serving who = some slice.replay)

/-- Either nobody notices a turn or one replay has had a slice. -/
theorem Wf.process_cases (hs : s.Wf) (v : View) (clock : Clock) (f : Faults) :
    (s.process v clock f).scheduler.Wf
      ∧ (((s.process v clock f).delivered = [] ∧ (s.process v clock f).finished = .ok none
          ∧ ∀ x, (s.process v clock f).scheduler.serving x = s.serving x)
        ∨ ∃ who r slice, Turned s v who r slice (s.process v clock f)) := by
  rw [process]
  split
  · exact ⟨hs, .inl ⟨rfl, rfl, fun _ => rfl⟩⟩
  · rename_i id rest hready
    have hwaiting : ∀ n ∈ s.ready, n ≠ id → n ∈ rest := by
      intro n hn hne
      rw [hready] at hn
      exact (List.mem_cons.1 hn).resolve_left hne
    simp only
    split
    · rename_i hnone
      -- the number has no replay, so none loses its place
      have hwf : ({ s with ready := rest } : Scheduler).Wf := by
        refine ⟨hs.serves, hs.registered, hs.fresh, hs.sound, fun {n r} hr => ?_⟩
        refine hwaiting n (hs.queued hr) ?_
        rintro rfl
        cases hnone.symm.trans hr
      exact ⟨hwf, .inl ⟨rfl, rfl, fun _ => rfl⟩⟩
    · rename_i r hr
      split
      · rename_i hdead
        -- a replay that is dead serves nobody
        have hfree : ∀ x, s.idOf? x ≠ some id := by
          intro x hx
          obtain ⟨r', hr', hdead', -⟩ := hs.serves hx
          cases hr.symm.trans hr'
          rw [hdead] at hdead'
          cases hdead'
        have hdrop : ({ s with ready := rest, replays := s.replays.erase id } : Scheduler).Wf ∧ _ :=
          hs.discard hfree (fun _ => rfl) (fun _ => KeyMap.get?_erase) rfl hwaiting
        exact ⟨hdrop.1, .inl ⟨rfl, rfl, hdrop.2⟩⟩
      · rename_i hdead
        have hdead : r.dead = false := Bool.eq_false_iff.2 hdead
        have hid := hs.registered hr hdead
        have hserving : s.serving r.follower.sub.toRecipient = some r := by
          rw [serving_of_idOf? hid, hr]
        have hserved : Replay.Served v r (r.process v clock f []) := Replay.served (hs.sound hr)
        -- all that matters of the slice is what `served` says about it
        generalize r.process v clock f [] = slice at hserved ⊢
        have hwait : ({ s with ready := rest ++ [id], replays := s.replays.insert id slice.replay } :
            Scheduler).Wf ∧ _ :=
          hs.resume hr hdead hserved.sound hserved.dead_eq hserved.follower_eq (fun _ => rfl) rfl rfl
            (fun n hn => by
              rw [hready] at hn
              rcases List.mem_cons.1 hn with rfl | hn
              · exact List.mem_append_right _ (List.mem_singleton_self _)
              · exact List.mem_append_left _ hn)
        have hothers : ∀ x, x ≠ r.follower.sub.toRecipient → _ := fun x hx =>
          (hwait.2 x).trans (if_neg hx)
        have hself := (hwait.2 r.follower.sub.toRecipient).trans (if_pos rfl)
        cases hend : slice.outcome with
        | error e =>
          exact ⟨hwait.1, .inr ⟨_, r, slice, hserving, hserved, rfl, hothers, .inr ⟨nofun, hself⟩⟩⟩
        | ok b =>
          cases b with
          | false =>
            exact ⟨hwait.1, .inr ⟨_, r, slice, hserving, hserved, rfl, hothers, .inr ⟨nofun, hself⟩⟩⟩
          | true =>
            have hgone : (({ s with ready := rest, replays := s.replays.erase id } :
                Scheduler).remove r.follower.sub.toRecipient).Wf ∧ _ :=
              hs.retire hid hwaiting
            have hothers : ∀ x, x ≠ r.follower.sub.toRecipient → _ := fun x hx =>
              (hgone.2 x).trans (if_neg hx)
            have hself := (hgone.2 r.follower.sub.toRecipient).trans (if_pos rfl)
            exact ⟨hgone.1, .inr ⟨_, r, slice, hserving, hserved, rfl, hothers,
              .inl ⟨hend, rfl, hself⟩⟩⟩

end

end Scheduler

end EventRelay
