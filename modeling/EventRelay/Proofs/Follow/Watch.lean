import EventRelay.Follow
import EventRelay.Proofs.Worker.Undisturbed
/-!
# A follower at work

Others store events while a follower looks at the store and its workers take their turns, each with as many
of its messages as have come in; nobody waits for anybody.  One worker has been asked for the events, the
others have nothing but news of the store.  What is kept through all of this is how far the worker asked
has come, compared with what the follower has seen.

Main statements: `Watching.commit`, `Watching.look`, `Watching.turn` and, of these, `watching_after`.
-/

namespace EventRelay

namespace Follow

/-- What may happen while a follower is at work. -/
inductive Move where
  /-- Somebody else stores an event. -/
  | commit (e : Event) (text : String)
  | look
  /-- A worker has a turn with the first `taken` of its messages; the clock may pause its replay. -/
  | turn (clock : Clock) (worker taken : Nat)

/-- A follower at work. -/
structure Watch where
  store : Store
  follow : Follow
  /-- What the workers have sent. -/
  sent : List Delivery
  /-- The latest seq at the first look. -/
  first : Option Nat
  /-- The latest seq when the worker asked first took a message. -/
  asked : Option Nat

namespace Watch

def start (c : Config) (group : FilterGroup) (s : Store) : Watch := ⟨s, .start c group, [], none, none⟩

def step (x : Watch) : Move → Watch
  | .commit e text =>
    match x.store.insertWithText e text with
    | .ok (_, store) => { x with store }
    | .error _ => x
  | .look =>
    let latest := x.store.view.latestSeq
    { x with follow := x.follow.look latest, first := x.first.or (some latest) }
  | .turn clock worker taken =>
    let (follow, out) := x.follow.turn x.store.view clock worker taken
    { x with
      follow
      sent := x.sent ++ out
      asked := if worker = 0 ∧ 0 < taken then x.asked.or (some x.store.view.latestSeq) else x.asked }

/-- A follower at work after some moves. -/
def after (c : Config) (group : FilterGroup) (s : Store) (moves : List Move) : Watch :=
  moves.foldl step (start c group s)

/-- What the subscription has been told. -/
def words (x : Watch) : List Word := x.sent.flatMap (·.wordsTo recipient)

/-- The seqs that the subscription has been sent. -/
def delivered (x : Watch) : List Nat := x.words.filterMap Word.seq?

end Watch

/-! ### Inboxes -/

section

variable {f : Follow} {m : Message} {i : Nat}

/-- Who is sent a message finds it behind the others. -/
theorem getElem?_post (hlength : f.inboxes.length = f.pool.workers.length) :
    (f.post m).inboxes[i]?
      = f.inboxes[i]?.map (· ++ if f.pool.reaches m i then [m] else []) := by
  have hpost : (f.post m).inboxes = List.zipWith (· ++ ·) f.inboxes (f.pool.inboxes m) :=
    List.map_zip_eq_zipWith
  rw [hpost, List.getElem?_zipWith, Pool.inboxes, List.getElem?_map]
  by_cases hi : i < f.inboxes.length
  · rw [List.getElem?_eq_getElem hi, List.getElem?_range (hlength ▸ hi)]
    rfl
  · rw [List.getElem?_eq_none (Nat.not_lt.1 hi)]
    rfl

/-- An item that is replaced leaves the others where they are. -/
theorem getElem?_set_of_some {α : Type} {l : List α} {i j : Nat} {a b : α} (h : l[i]? = some a) :
    (l.set i b)[j]? = if i = j then some b else l[j]? := by
  rw [List.getElem?_set, if_pos (List.getElem?_eq_some_iff.1 h).1]

theorem length_post (hlength : f.inboxes.length = f.pool.workers.length) :
    (f.post m).inboxes.length = f.pool.workers.length := by
  simp [post, Pool.inboxes, hlength]

end

/-! ### What is kept -/

/-- A worker that is not asked for anything, with its inbox. -/
structure Aside (c : Config) (s : Store) (w : Worker) (inbox : List Message) : Prop where
  exists_course : ∃ deeds, w.Course c s deeds ∧ ∀ d ∈ deeds, d.concerns recipient = false
  pending_eq : w.pending = []
  news : ∀ m ∈ inbox, m = .dbChange

/-- The worker that is asked, with its inbox: it has not begun yet, or has handled the request first and,
since then, only news. -/
inductive Asker (c : Config) (group : FilterGroup) (s : Store) (w : Worker) (inbox : List Message) :
    Option Nat → List Word → Prop
  | fresh {more} : w = .start c → inbox = .newSub ⟨recipient, group⟩ :: more →
      (∀ m ∈ more, m = .dbChange) → Asker c group s w inbox none []
  | asked {asked deeds} :
      w.Course c s (.handled (.newSub ⟨recipient, group⟩) asked
        (decide (0 < c.maxSubsPerConnection.toNat)) :: deeds) →
      w.Run c Event.FromJson s ((.handled (.newSub ⟨recipient, group⟩) asked
        (decide (0 < c.maxSubsPerConnection.toNat)) :: deeds).map Deed.item) →
      (∀ d ∈ deeds, d.concerns recipient = false) → w.pending = [] → (∀ m ∈ inbox, m = .dbChange) →
      Asker c group s w inbox (some asked) (deeds.flatMap (·.wordsTo recipient))

/-- How far the worker that is asked has come, compared with what has been seen: as long as nothing new has
been seen, where it was asked; and then up to what has been seen, or it is still to get news. -/
structure Noted (latest : Nat) (first seen asked : Option Nat) (w : Worker) (inbox : List Message) :
    Prop where
  first_of_seen : ∀ {n}, seen = some n → ∃ m, first = some m ∧ m ≤ n ∧ n ≤ latest
  first_of_none : seen = none → first = none
  unnotified : first = seen → .dbChange ∉ inbox ∧ ∀ n, asked = some n → w.position = some n
  notified : ∀ {m n}, first = some m → seen = some n → m < n →
    .dbChange ∈ inbox ∨ ∃ k, w.position = some k ∧ n ≤ k

structure Watching (c : Config) (group : FilterGroup) (x : Watch) : Prop where
  built : x.store.Built Event.FromJson
  length_eq : x.follow.inboxes.length = x.follow.pool.workers.length
  aside : ∀ {i w inbox}, i ≠ 0 → x.follow.pool.workers[i]? = some w →
    x.follow.inboxes[i]? = some inbox → Aside c x.store w inbox
  exists_asker : ∃ w inbox, x.follow.pool.workers[0]? = some w ∧ x.follow.inboxes[0]? = some inbox
    ∧ Asker c group x.store w inbox x.asked x.words
    ∧ Noted x.store.view.latestSeq x.first x.follow.seen x.asked w inbox

section

variable {c : Config} {group : FilterGroup} {x : Watch} {w : Worker} {inbox : List Message}
  {s s' : Store}

theorem Aside.change (h : Aside c s w inbox) (hchange : s.Change (fun _ _ => True) true s') :
    Aside c s' w inbox := by
  obtain ⟨deeds, hcourse, hquiet⟩ := h.exists_course
  exact ⟨⟨deeds, hcourse.change hchange, hquiet⟩, h.pending_eq, h.news⟩

/-- A step that handles only news adds nothing about the subscription. -/
theorem quiet_append_record {v : View} {clock : Clock} {deeds : List Deed} {who : Recipient}
    (hquiet : ∀ d ∈ deeds, d.concerns who = false) (hpending : w.pending = [])
    (hnews : ∀ m ∈ inbox, m = .dbChange) (taken : Nat) :
    ∀ d ∈ deeds ++ w.record v clock .none (inbox.take taken), d.concerns who = false := by
  have hnone : ∀ m ∈ w.pending ++ inbox.take taken, m.concerns who = false := by
    intro m hm
    rw [hpending] at hm
    rw [hnews m (List.mem_of_mem_take hm)]
    rfl
  intro d hd
  rcases List.mem_append.1 hd with hd | hd
  · exact hquiet d hd
  · exact Worker.concerns_record hnone d hd

/-- A worker that is not asked for anything tells the subscription nothing. -/
theorem Aside.step (h : Aside c s w inbox) (clock : Clock) (taken : Nat) :
    Aside c s (w.step s.view clock .none (inbox.take taken)).worker (inbox.drop taken)
      ∧ (w.step s.view clock .none (inbox.take taken)).out.flatMap (·.wordsTo recipient) = [] := by
  obtain ⟨deeds, hcourse, hquiet⟩ := h.exists_course
  have hnext := hcourse.step clock .none (inbox.take taken)
  have hall := @quiet_append_record w inbox s.view clock _ _ hquiet h.pending_eq h.news taken
  refine ⟨⟨⟨_, hnext, hall⟩, Worker.pending_step, fun m hm => h.news m (List.mem_of_mem_drop hm)⟩, ?_⟩
  -- nobody was taken on under its name, so nothing may have been told to it
  have htale : (taleOf recipient _).Obeys := hnext.obeyed (List.prefix_refl _)
  rw [taleOf_of_quiet hall] at htale
  have hwords := htale.of_untaken rfl
  rw [List.flatMap_append, Worker.words_record] at hwords
  exact (List.append_eq_nil_iff.1 hwords).2

/-- The request is the first thing that the worker handles; it is taken on if a connection may have any
subscription. -/
theorem record_start {v : View} {clock : Clock} {sub : Subscription} {more : List Message}
    (hmore : ∀ m ∈ more, m = .dbChange) :
    ∃ deeds, (Worker.start c).record v clock .none (.newSub sub :: more)
        = .handled (.newSub sub) v.latestSeq (decide (0 < c.maxSubsPerConnection.toNat)) :: deeds
      ∧ ∀ d ∈ deeds, d.concerns sub.toRecipient = false := by
  let p := ({ Worker.start c with pending := .newSub sub :: more } : Worker).begin v .none
  have htakes : Worker.takesOn v p (.newSub sub) = decide (0 < c.maxSubsPerConnection.toNat) := by
    have hcapped : Worker.Capped c.maxSubsPerConnection.toNat v p.worker v.latestSeq [] :=
      Worker.capped_start (Nat.le_refl _)
    have hrefused := hcapped.refused_iff sub
    have hothers : p.worker.others sub.toRecipient = 0 := Nat.zero_sub _
    rw [hothers] at hrefused
    cases htaken : Worker.takesOn v p (.newSub sub) with
    | false => rw [← hrefused.1 htaken]; rfl
    | true =>
      refine (decide_eq_true (Nat.pos_of_ne_zero fun hzero => ?_)).symm
      rw [hrefused.2 hzero.symm] at htaken
      cases htaken
  refine ⟨_, congrArg (Deed.handled (.newSub sub) v.latestSeq · :: _) htakes, fun d hd => ?_⟩
  have hnews : ∀ m ∈ more, m.concerns sub.toRecipient = false := by
    intro m hm
    rw [hmore m hm]
    rfl
  -- behind the request there are news and what is sent
  rcases List.mem_append.1 hd with hd | hd
  · rcases List.mem_append.1 hd with hd | hd
    · obtain ⟨_, -, rfl⟩ := List.mem_map.1 hd
      rfl
    · exact Worker.concerns_recordOf hnews d hd
  · obtain ⟨_, -, rfl⟩ := List.mem_map.1 hd
    rfl

/-- The request is handled. -/
theorem asker_begin (hs : s.Built Event.FromJson) {clock : Clock} {more rest : List Message}
    (hmore : ∀ m ∈ more, m = .dbChange) (hrest : ∀ m ∈ rest, m = .dbChange) :
    Asker c group s
      ((Worker.start c).step s.view clock .none (.newSub ⟨recipient, group⟩ :: more)).worker rest
      (some s.view.latestSeq)
      (((Worker.start c).step s.view clock .none (.newSub ⟨recipient, group⟩ :: more)).out.flatMap
        (·.wordsTo recipient)) := by
  obtain ⟨deeds, hrecord, hquiet⟩ := @record_start c s.view clock ⟨recipient, group⟩ more hmore
  have hcourse : (Worker.start c).Course c s [] := .start (hs.mono fun _ _ => trivial)
  have hrun : (Worker.start c).Run c Event.FromJson s [] := .start hs
  have hcourse' := hcourse.step clock .none (.newSub ⟨recipient, group⟩ :: more)
  have hrun' := hrun.step clock .none (.newSub ⟨recipient, group⟩ :: more)
  rw [← Worker.map_item_record] at hrun'
  rw [hrecord, List.nil_append] at hcourse' hrun'
  have hasker : Asker c group s _ rest _ (deeds.flatMap (·.wordsTo recipient)) :=
    .asked hcourse' hrun' hquiet Worker.pending_step hrest
  rw [← Worker.words_record, hrecord]
  exact hasker

/-- A worker that has handled the request handles news. -/
theorem Asker.turn {asked : Nat} {words : List Word} (h : Asker c group s w inbox (some asked) words)
    (clock : Clock) (taken : Nat) :
    Asker c group s (w.step s.view clock .none (inbox.take taken)).worker (inbox.drop taken) (some asked)
      (words ++ (w.step s.view clock .none (inbox.take taken)).out.flatMap (·.wordsTo recipient)) := by
  obtain _ | ⟨hcourse, hrun, hquiet, hpending, hnews⟩ := h
  have hcourse' := hcourse.step clock .none (inbox.take taken)
  have hrun' := hrun.step clock .none (inbox.take taken)
  rw [← Worker.map_item_record, ← List.map_append] at hrun'
  rw [← Worker.words_record, ← List.flatMap_append]
  exact .asked hcourse' hrun' (quiet_append_record hquiet hpending hnews taken) Worker.pending_step
    fun m hm => hnews m (List.mem_of_mem_drop hm)

/-- The position of a worker that has handled the request lies within the store. -/
theorem Asker.le_latest {asked n : Nat} {words : List Word}
    (h : Asker c group s w inbox (some asked) words) (hn : w.position = some n) :
    n ≤ s.view.latestSeq := by
  obtain _ | ⟨-, hrun, -⟩ := h
  rcases hrun.stands with ⟨_, -, hnil⟩ | ⟨n', hsound⟩
  · cases hnil
  · cases hn.symm.trans hsound.position
    exact hsound.le_latest

/-! ### Moves -/

theorem Asker.change {asked : Option Nat} {words : List Word} (h : Asker c group s w inbox asked words)
    {e : Event} (he : e.FromJson) {text : String} {seq : Option Nat}
    (hins : s.insertWithText e text = .ok (seq, s')) : Asker c group s' w inbox asked words := by
  have hchange : s.Change (fun _ _ => True) true s' := Store.Change.refl.insert trivial hins
  cases h with
  | fresh hw hinbox hmore => exact .fresh hw hinbox hmore
  | asked hcourse hrun hquiet hpending hnews =>
    exact .asked (hcourse.change hchange) (hrun.insert he hins) hquiet hpending hnews

/-- Somebody else stores an event. -/
theorem Watching.commit (h : Watching c group x) {e : Event} (he : e.FromJson) {text : String} :
    Watching c group (x.step (.commit e text)) := by
  rw [Watch.step]
  cases hins : x.store.insertWithText e text with
  | error _ => exact h
  | ok result =>
    obtain ⟨seq, store⟩ := result
    have hchange : x.store.Change (fun _ _ => True) true store := Store.Change.refl.insert trivial hins
    have hle : x.store.view.latestSeq ≤ store.view.latestSeq :=
      hchange.latestSeq_le (h.built.mono fun _ _ => trivial) fun _ _ _ => trivial
    obtain ⟨w, inbox, hw, hinbox, hasker, hnoted⟩ := h.exists_asker
    refine ⟨h.built.insert he hins, h.length_eq, fun hi hw hinbox => (h.aside hi hw hinbox).change hchange,
      w, inbox, hw, hinbox, hasker.change he hins, { hnoted with first_of_seen := fun hseen => ?_ }⟩
    obtain ⟨m, hm, hle', hlatest⟩ := hnoted.first_of_seen hseen
    exact ⟨m, hm, hle', Nat.le_trans hlatest hle⟩

/-- The first look only notes the latest seq. -/
theorem Noted.look_first {latest : Nat} {asked : Option Nat}
    (h : Noted latest none none asked w inbox) :
    Noted latest (some latest) (some latest) asked w inbox where
  first_of_seen hseen := by
    cases hseen
    exact ⟨latest, rfl, Nat.le_refl _, Nat.le_refl _⟩
  first_of_none hseen := by cases hseen
  unnotified _ := h.unnotified rfl
  notified hm hn hlt := by
    cases hm
    cases hn
    exact absurd hlt (Nat.lt_irrefl _)

/-- A look that finds something new sends news to everybody. -/
theorem Noted.look_new {latest seen : Nat} {first asked : Option Nat}
    (h : Noted latest first (some seen) asked w inbox) (hlt : seen < latest) :
    Noted latest first (some latest) asked w (inbox ++ [.dbChange]) where
  first_of_seen hseen := by
    cases hseen
    obtain ⟨m, hm, hle, -⟩ := h.first_of_seen rfl
    exact ⟨m, hm, by omega, Nat.le_refl _⟩
  first_of_none hseen := by cases hseen
  unnotified heq := by
    obtain ⟨m, hm, hle, -⟩ := h.first_of_seen rfl
    rw [hm] at heq
    cases heq
    omega
  notified _ _ _ := .inl (List.mem_append_right _ (List.mem_singleton_self _))

theorem Aside.post (h : Aside c s w inbox) : Aside c s w (inbox ++ [.dbChange]) := by
  refine ⟨h.exists_course, h.pending_eq, fun m hm => ?_⟩
  rcases List.mem_append.1 hm with hm | hm
  · exact h.news m hm
  · exact List.mem_singleton.1 hm

theorem Asker.post {asked : Option Nat} {words : List Word} (h : Asker c group s w inbox asked words) :
    Asker c group s w (inbox ++ [.dbChange]) asked words := by
  have hnews : ∀ l : List Message, (∀ m ∈ l, m = .dbChange) → ∀ m ∈ l ++ [.dbChange], m = .dbChange := by
    intro l hl m hm
    rcases List.mem_append.1 hm with hm | hm
    · exact hl m hm
    · exact List.mem_singleton.1 hm
  cases h with
  | fresh hw hinbox hmore =>
    rw [hinbox]
    exact .fresh hw rfl (hnews _ hmore)
  | asked hcourse hrun hquiet hpending hinbox =>
    exact .asked hcourse hrun hquiet hpending (hnews _ hinbox)

theorem Watching.look (h : Watching c group x) : Watching c group (x.step .look) := by
  obtain ⟨w, inbox, hw, hinbox, hasker, hnoted⟩ := h.exists_asker
  rw [Watch.step, Follow.look]
  cases hseen : x.follow.seen with
  | none =>
    have hfirst := hnoted.first_of_none hseen
    rw [hfirst, hseen] at hnoted
    refine ⟨h.built, h.length_eq, h.aside, w, inbox, hw, hinbox, hasker, ?_⟩
    rw [hfirst]
    exact hnoted.look_first
  | some seen =>
    obtain ⟨m, hm, -⟩ := hnoted.first_of_seen hseen
    have hfirst : x.first.or (some x.store.view.latestSeq) = x.first := by
      rw [hm]
      rfl
    simp only [hfirst]
    split
    · rename_i hlt
      rw [hseen] at hnoted
      -- whoever has an inbox finds the news at its end
      let f : Follow := { x.follow with seen := some x.store.view.latestSeq }
      have hlength : f.inboxes.length = f.pool.workers.length := h.length_eq
      have hpost : ∀ i, (f.post .dbChange).inboxes[i]?
          = f.inboxes[i]?.map (· ++ [Message.dbChange]) :=
        fun i => getElem?_post hlength
      refine ⟨h.built, length_post hlength, fun {i w' inbox'} hi hw' hinbox' => ?_, w,
        inbox ++ [Message.dbChange], hw, ?_, hasker.post, hnoted.look_new hlt⟩
      · rw [hpost] at hinbox'
        obtain ⟨inbox, hinbox, rfl⟩ := Option.map_eq_some_iff.1 hinbox'
        exact (h.aside hi hw' hinbox).post
      · rw [hpost]
        exact congrArg (Option.map (· ++ [.dbChange])) hinbox
    · exact ⟨h.built, h.length_eq, h.aside, w, inbox, hw, hinbox, hasker, hnoted⟩

/-- A worker that handles the request knows all that has been seen by then. -/
theorem Noted.begin {latest : Nat} {first seen : Option Nat} (h : Noted latest first seen none w inbox)
    {w' : Worker} (hposition : w'.position = some latest) (taken : Nat) :
    Noted latest first seen (some latest) w' (inbox.drop taken) where
  first_of_seen := h.first_of_seen
  first_of_none := h.first_of_none
  unnotified heq := by
    refine ⟨fun hmem => (h.unnotified heq).1 (List.mem_of_mem_drop hmem), fun n hn => ?_⟩
    cases hn
    exact hposition
  notified _ hseen _ := by
    obtain ⟨-, -, -, hle⟩ := h.first_of_seen hseen
    exact .inr ⟨latest, hposition, hle⟩

/-- A worker that handles news comes to the end of the store. -/
theorem Noted.turn {v : View} {first seen : Option Nat} {asked : Nat}
    (h : Noted v.latestSeq first seen (some asked) w inbox) (hpending : w.pending = [])
    (hle : ∀ n, w.position = some n → n ≤ v.latestSeq) (clock : Clock) (taken : Nat) :
    Noted v.latestSeq first seen (some asked) (w.step v clock .none (inbox.take taken)).worker
      (inbox.drop taken) := by
  have hstays : .dbChange ∉ inbox.take taken → ∀ n, w.position = some n →
      (w.step v clock .none (inbox.take taken)).worker.position = some n := by
    intro hnone n hn
    rw [Worker.position_step, hpending, List.nil_append, if_neg hnone, Worker.positionIn, hn]
    simp only [Nat.min_eq_left (hle n hn)]
  refine ⟨h.first_of_seen, h.first_of_none, fun heq => ?_, fun hm hn hlt => ?_⟩
  · obtain ⟨hnone, hposition⟩ := h.unnotified heq
    refine ⟨fun hmem => hnone (List.mem_of_mem_drop hmem), fun n hn => ?_⟩
    exact hstays (fun hmem => hnone (List.mem_of_mem_take hmem)) n (hposition n hn)
  · by_cases hnews : .dbChange ∈ inbox.take taken
    · obtain ⟨-, -, -, hlatest⟩ := h.first_of_seen hn
      refine .inr ⟨v.latestSeq, ?_, hlatest⟩
      rw [Worker.position_step, hpending, List.nil_append, if_pos hnews]
    · rcases h.notified hm hn hlt with hmem | ⟨k, hk, hlatest⟩
      · rw [← List.take_append_drop taken inbox] at hmem
        exact .inl ((List.mem_append.1 hmem).resolve_left hnews)
      · exact .inr ⟨k, hstays hnews k hk, hlatest⟩

/-- A worker that has something to do takes some of its messages; nobody else notices. -/
theorem turn_cases (f : Follow) (v : View) (clock : Clock) (i taken : Nat) :
    (f.turn v clock i taken = (f, []) ∧ ∀ w inbox, f.pool.workers[i]? = some w → f.inboxes[i]? = some inbox →
        inbox.take taken = [])
      ∨ ∃ w inbox, f.pool.workers[i]? = some w ∧ f.inboxes[i]? = some inbox
        ∧ (w.isIdle && (inbox.take taken).isEmpty) = false
        ∧ f.turn v clock i taken = ({ f with
            pool := ⟨f.pool.workers.set i (w.step v clock .none (inbox.take taken)).worker⟩
            inboxes := f.inboxes.set i (inbox.drop taken) },
          (w.step v clock .none (inbox.take taken)).out) := by
  rw [Follow.turn]
  split
  · rename_i w inbox hw hinbox
    simp only
    split
    · rename_i hidle
      refine .inl ⟨rfl, fun w' inbox' _ hinbox' => ?_⟩
      cases hinbox.symm.trans hinbox'
      exact List.isEmpty_iff.1 (Bool.and_eq_true_iff.1 hidle).2
    · rename_i hbusy
      exact .inr ⟨w, inbox, hw, hinbox, Bool.eq_false_iff.2 hbusy, rfl⟩
  · rename_i hnone
    exact .inl ⟨rfl, fun w inbox hw hinbox => absurd hinbox (hnone w inbox hw)⟩

/-- The worker that is asked takes the request first, and then news. -/
theorem Asker.step {asked first seen : Option Nat} {words : List Word}
    (h : Asker c group s w inbox asked words) (hs : s.Built Event.FromJson)
    (hnoted : Noted s.view.latestSeq first seen asked w inbox) {clock : Clock} {taken : Nat}
    (hbusy : (w.isIdle && (inbox.take taken).isEmpty) = false) :
    Asker c group s (w.step s.view clock .none (inbox.take taken)).worker (inbox.drop taken)
        (if 0 < taken then asked.or (some s.view.latestSeq) else asked)
        (words ++ (w.step s.view clock .none (inbox.take taken)).out.flatMap (·.wordsTo recipient))
      ∧ Noted s.view.latestSeq first seen (if 0 < taken then asked.or (some s.view.latestSeq) else asked)
        (w.step s.view clock .none (inbox.take taken)).worker (inbox.drop taken) := by
  cases h with
  | @fresh more hw hinbox hmore =>
    subst hw hinbox
    cases taken with
    | zero => cases hbusy
    | succ k =>
      have hposition : ((Worker.start c).step s.view clock .none
          ((.newSub ⟨recipient, group⟩ :: more).take (k + 1))).worker.position = some s.view.latestSeq := by
        rw [Worker.position_step]
        exact congrArg some (ite_self _)
      rw [if_pos (Nat.succ_pos k)]
      refine ⟨?_, hnoted.begin hposition (k + 1)⟩
      exact asker_begin hs (fun m hm => hmore m (List.mem_of_mem_take hm))
        fun m hm => hmore m (List.mem_of_mem_drop hm)
  | @asked a deeds hcourse hrun hquiet hpending hnews =>
    have hasker : Asker c group s w inbox (some a) (deeds.flatMap (·.wordsTo recipient)) :=
      .asked hcourse hrun hquiet hpending hnews
    have hasked : (if 0 < taken then (some a).or (some s.view.latestSeq) else some a) = some a := by
      split <;> rfl
    rw [hasked]
    exact ⟨hasker.turn clock taken, hnoted.turn hpending (fun n => hasker.le_latest) clock taken⟩

/-- Where a worker with nothing to do has a turn, nothing happens: who has nothing to take has been asked
already. -/
theorem Watching.step_of_idle (h : Watching c group x) {clock : Clock} {i taken : Nat}
    (hturn : x.follow.turn x.store.view clock i taken = (x.follow, []))
    (hempty : ∀ w inbox, x.follow.pool.workers[i]? = some w → x.follow.inboxes[i]? = some inbox →
      inbox.take taken = []) : x.step (.turn clock i taken) = x := by
  obtain ⟨w, inbox, hw, hinbox, hasker, -⟩ := h.exists_asker
  have hasked : (if i = 0 ∧ 0 < taken then x.asked.or (some x.store.view.latestSeq) else x.asked)
      = x.asked := by
    split
    · rename_i htaken
      obtain ⟨rfl, hpos⟩ := htaken
      have htake := hempty w inbox hw hinbox
      generalize x.asked = asked at hasker
      generalize x.words = words at hasker
      cases hasker with
      | fresh _ hinbox _ =>
        rw [hinbox, List.take_eq_nil_iff] at htake
        rcases htake with hzero | hnil
        · omega
        · cases hnil
      | asked _ _ _ _ _ => rfl
    · rfl
  simp only [Watch.step, hturn, hasked, List.append_nil]

/-- A worker has a turn. -/
theorem Watching.turn (h : Watching c group x) (clock : Clock) (i taken : Nat) :
    Watching c group (x.step (.turn clock i taken)) := by
  rcases turn_cases x.follow x.store.view clock i taken with
    ⟨hturn, hempty⟩ | ⟨w', inbox', hw', hinbox', hbusy, hturn⟩
  · rw [h.step_of_idle hturn hempty]
    exact h
  obtain ⟨w, inbox, hw, hinbox, hasker, hnoted⟩ := h.exists_asker
  have hstep : x.step (.turn clock i taken) = { x with
      follow := { x.follow with
        pool := ⟨x.follow.pool.workers.set i (w'.step x.store.view clock .none (inbox'.take taken)).worker⟩
        inboxes := x.follow.inboxes.set i (inbox'.drop taken) }
      sent := x.sent ++ (w'.step x.store.view clock .none (inbox'.take taken)).out
      asked := if i = 0 ∧ 0 < taken then x.asked.or (some x.store.view.latestSeq) else x.asked } := by
    simp only [Watch.step, hturn]
  have hlength : (x.follow.inboxes.set i (inbox'.drop taken)).length
      = (x.follow.pool.workers.set i
          (w'.step x.store.view clock .none (inbox'.take taken)).worker).length := by
    rw [List.length_set, List.length_set, h.length_eq]
  have hwords : (x.step (.turn clock i taken)).words = x.words
      ++ (w'.step x.store.view clock .none (inbox'.take taken)).out.flatMap (·.wordsTo recipient) := by
    rw [hstep]
    exact List.flatMap_append
  by_cases hi : i = 0
  · subst hi
    cases hw.symm.trans hw'
    cases hinbox.symm.trans hinbox'
    obtain ⟨hasker', hnoted'⟩ := hasker.step h.built hnoted hbusy
    rw [← hwords] at hasker'
    rw [hstep] at hasker' ⊢
    simp only [true_and]
    refine ⟨h.built, hlength, fun {j w' inbox'} hj hw' hinbox' => ?_, _, _,
      (getElem?_set_of_some hw).trans (if_pos rfl), (getElem?_set_of_some hinbox).trans (if_pos rfl), ?_,
      hnoted'⟩
    · have hne : 0 ≠ j := fun heq => hj heq.symm
      exact h.aside hj (((getElem?_set_of_some hw).trans (if_neg hne)).symm.trans hw')
        (((getElem?_set_of_some hinbox).trans (if_neg hne)).symm.trans hinbox')
    · simpa only [true_and] using hasker'
  · -- somebody else has the turn and tells the subscription nothing
    obtain ⟨haside, hnothing⟩ := (h.aside hi hw' hinbox').step clock taken
    have hasked : (if i = 0 ∧ 0 < taken then x.asked.or (some x.store.view.latestSeq) else x.asked)
        = x.asked := if_neg fun hboth => hi hboth.1
    rw [hnothing, List.append_nil] at hwords
    rw [← hwords] at hasker
    rw [hstep, hasked] at hasker ⊢
    refine ⟨h.built, hlength, fun {j w'' inbox''} hj hw'' hinbox'' => ?_, w, inbox,
      (getElem?_set_of_some hw').trans ((if_neg hi).trans hw),
      (getElem?_set_of_some hinbox').trans ((if_neg hi).trans hinbox), hasker, hnoted⟩
    have hw'' := (getElem?_set_of_some hw').symm.trans hw''
    have hinbox'' := (getElem?_set_of_some hinbox').symm.trans hinbox''
    split at hw''
    · rename_i heq
      rw [if_pos heq] at hinbox''
      cases hw''
      cases hinbox''
      exact haside
    · rename_i hne
      rw [if_neg hne] at hinbox''
      exact h.aside hj hw'' hinbox''

/-! ### Runs -/

/-- Only the first worker is asked. -/
theorem watching_start (hs : s.Built Event.FromJson) : Watching c group (.start c group s) := by
  let f : Follow := { pool := .start c, inboxes := (Pool.start c).noMessages, seen := none }
  have hlength : f.inboxes.length = f.pool.workers.length := List.length_replicate
  have hpost : ∀ i, (Follow.start c group).inboxes[i]? = f.inboxes[i]?.map
      (· ++ if f.pool.reaches (.newSub ⟨recipient, group⟩) i then [.newSub ⟨recipient, group⟩] else []) :=
    fun i => getElem?_post hlength
  have hreaches : ∀ i, f.pool.reaches (.newSub ⟨recipient, group⟩) i = decide (i = 0) := by
    intro i
    show decide (0 % _ = i) = _
    rw [Nat.zero_mod]
    exact decide_eq_decide.2 eq_comm
  refine ⟨hs, length_post hlength, fun {i w inbox} hi hw hinbox => ?_, .start c, [.newSub ⟨recipient, group⟩],
    ?_, ?_, .fresh rfl rfl fun _ hm => absurd hm List.not_mem_nil, ?_⟩
  · have hstart : w = .start c := List.eq_of_mem_replicate (List.mem_of_getElem? hw)
    have hinbox := (hpost i).symm.trans hinbox
    rw [hreaches, decide_eq_false hi, Option.map_eq_some_iff] at hinbox
    obtain ⟨l, hl, rfl⟩ := hinbox
    rw [List.eq_of_mem_replicate (List.mem_of_getElem? hl), hstart]
    exact ⟨⟨[], .start (hs.mono fun _ _ => trivial), fun _ hd => absurd hd List.not_mem_nil⟩, rfl,
      fun _ hm => absurd hm List.not_mem_nil⟩
  · exact List.getElem?_replicate_of_lt (Nat.lt_of_lt_of_le Nat.one_pos (Nat.le_max_right _ _))
  · refine (hpost 0).trans ?_
    have hlen : f.pool.workers.length = max c.numWorkers.toNat 1 := List.length_replicate
    have hfirst : f.inboxes[0]? = some [] := by
      refine List.getElem?_replicate_of_lt (hlen ▸ ?_)
      exact Nat.lt_of_lt_of_le Nat.one_pos (Nat.le_max_right _ _)
    rw [hfirst, hreaches]
    rfl
  · exact ⟨nofun, fun _ => rfl, fun _ => ⟨by simp, nofun⟩, nofun⟩

/-- What is kept is kept along all moves. -/
theorem watching_after (hs : s.Built Event.FromJson) {moves : List Move}
    (hcommits : ∀ e text, .commit e text ∈ moves → e.FromJson) :
    Watching c group (.after c group s moves) := by
  have hmoves : ∀ (moves : List Move) {x : Watch}, Watching c group x →
      (∀ e text, .commit e text ∈ moves → e.FromJson) → Watching c group (moves.foldl Watch.step x) := by
    intro moves
    induction moves with
    | nil => exact fun h _ => h
    | cons move rest ih =>
      intro x h hcommits
      refine ih ?_ fun e text hmem => hcommits e text (List.mem_cons_of_mem _ hmem)
      cases move with
      | commit e text => exact h.commit (hcommits e text List.mem_cons_self)
      | look => exact h.look
      | turn clock worker taken => exact h.turn clock worker taken
  exact hmoves moves (watching_start hs) hcommits

end

end Follow

end EventRelay
