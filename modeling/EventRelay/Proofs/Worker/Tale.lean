import EventRelay.Proofs.Worker.Record
/-!
# The tale of a subscription

The tale of a recipient is what it has been told since the last message that concerned it: one that took
a subscription on under its name, or one that took it away.  A tale that follows the protocol tells stored
events, none twice and none above the last seq stored when the subscription was taken on; then that the
replay is complete; and then new events in ascending order, all above that seq.  One that nobody asked for
tells nothing.

Main statements: `Protocol.of_prefix` (a protocol is followed from the first word on) and
`taleOf_of_split` (the tale in terms of the record).
-/

namespace EventRelay

/-- What a delivery tells one recipient. -/
inductive Word where
  | event (seq : Nat)
  | eose
  | live (seq : Nat)
  deriving DecidableEq

/-- What a recipient is told by a delivery. -/
def Delivery.wordsTo (who : Recipient) : Delivery → List Word
  | .event x seq => if x = who then [.event seq] else []
  | .eose x => if x = who then [.eose] else []
  | .live seq whos => List.replicate (whos.count who) (.live seq)
  | .notice _ _ => []

/-- Whether a message is about a recipient: it asks for a subscription under its name, or takes it away. -/
def Message.concerns (who : Recipient) : Message → Bool
  | .newSub sub => sub.toRecipient = who
  | .removeSub x => x = who
  | .closeConn conn => who.conn = conn
  | .dbChange => false

namespace Deed

/-- Whether a message about a recipient is handled. -/
def concerns (who : Recipient) : Deed → Bool
  | .handled m _ _ => m.concerns who
  | .sent _ => false

def wordsTo (who : Recipient) : Deed → List Word
  | .handled _ _ _ => []
  | .sent d => d.wordsTo who

/-- Who is taken on. -/
def follower? : Deed → Option Follower
  | .handled (.newSub sub) latest true => some ⟨sub, latest⟩
  | _ => none

end Deed

/-! ### The protocol -/

/-- The parts of a tale: the stored events, whether they have been told to be complete, and then the new
events. -/
structure Parts where
  events : List Nat
  complete : Bool
  lives : List Nat

namespace Parts

/-- The words of a tale with these parts; nothing is told live before the stored events are complete. -/
def words (p : Parts) : List Word :=
  p.events.map .event ++ if p.complete then .eose :: p.lives.map .live else []

/-- Whether the seqs of a tale are in order around a watermark. -/
structure Keep (p : Parts) (watermark : Nat) : Prop where
  nodup : p.events.Nodup
  le : ∀ seq ∈ p.events, seq ≤ watermark
  ascending : p.lives.Pairwise (· < ·)
  above : ∀ seq ∈ p.lives, watermark < seq

end Parts

/-- Whether words are told as to somebody who was taken on at a watermark. -/
def Protocol (watermark : Nat) (words : List Word) : Prop :=
  ∃ p : Parts, p.words = words ∧ p.Keep watermark

theorem protocol_nil {watermark : Nat} : Protocol watermark [] :=
  ⟨⟨[], false, []⟩, rfl, .nil, fun _ h => absurd h List.not_mem_nil, .nil,
    fun _ h => absurd h List.not_mem_nil⟩

/-- A tale that follows the protocol has followed it from the first word on. -/
theorem Protocol.of_prefix {watermark : Nat} {words words' : List Word} (h : Protocol watermark words)
    (hle : words' <+: words) : Protocol watermark words' := by
  obtain ⟨p, rfl, hkeep⟩ := h
  rw [List.prefix_iff_eq_take.1 hle, Parts.words, List.take_append]
  generalize words'.length = k
  -- a cut among the stored events leaves some of them, one behind them leaves some of the new events
  have hevents : Protocol watermark ((p.events.map Word.event).take k) := by
    refine ⟨⟨p.events.take k, false, []⟩, ?_, hkeep.nodup.sublist (List.take_sublist _ _),
      fun seq hseq => hkeep.le seq (List.mem_of_mem_take hseq), .nil,
      fun _ hseq => absurd hseq List.not_mem_nil⟩
    rw [Parts.words, ← List.map_take]
    exact List.append_nil _
  cases hcomplete : p.complete with
  | false =>
    rw [if_neg Bool.false_ne_true, List.take_nil, List.append_nil]
    exact hevents
  | true =>
    rw [if_pos rfl]
    cases hrest : k - (p.events.map Word.event).length with
    | zero =>
      rw [List.take_zero, List.append_nil]
      exact hevents
    | succ j =>
      rw [List.take_of_length_le (by omega), List.take_succ_cons, ← List.map_take]
      exact ⟨⟨p.events, true, p.lives.take j⟩, rfl, hkeep.nodup, hkeep.le,
        hkeep.ascending.sublist (List.take_sublist _ _),
        fun seq hseq => hkeep.above seq (List.mem_of_mem_take hseq)⟩

/-- Whether words are told as to somebody who was taken on at a watermark and has been told of all events
up to `b`, the stored ones completely. -/
structure Caught (watermark b : Nat) (words : List Word) : Prop where
  exists_parts : ∃ p : Parts, p.words = words ∧ p.complete = true ∧ p.Keep watermark
    ∧ ∀ seq ∈ p.lives, seq ≤ b
  le : watermark ≤ b

theorem Caught.protocol {watermark b : Nat} {words : List Word} (h : Caught watermark b words) :
    Protocol watermark words := by
  obtain ⟨p, hwords, -, hkeep, -⟩ := h.exists_parts
  exact ⟨p, hwords, hkeep⟩

/-- Somebody who is told of a stretch of new events behind those told before. -/
theorem Caught.append {watermark b b' : Nat} {words : List Word} (h : Caught watermark b words)
    {seqs : List Nat} (hascending : seqs.Pairwise (· < ·)) (habove : ∀ seq ∈ seqs, b < seq)
    (hbelow : ∀ seq ∈ seqs, seq ≤ b') (hle : b ≤ b') :
    Caught watermark b' (words ++ seqs.map .live) := by
  obtain ⟨p, rfl, hcomplete, hkeep, hlives⟩ := h.exists_parts
  refine ⟨⟨⟨p.events, true, p.lives ++ seqs⟩, ?_, rfl, ⟨hkeep.nodup, hkeep.le, ?_, ?_⟩, ?_⟩,
    Nat.le_trans h.le hle⟩
  · simp only [Parts.words, hcomplete, if_pos, List.map_append, List.append_assoc, List.cons_append]
  · refine List.pairwise_append.2 ⟨hkeep.ascending, hascending, fun x hx y hy => ?_⟩
    exact Nat.lt_of_le_of_lt (hlives x hx) (habove y hy)
  · intro seq hseq
    rcases List.mem_append.1 hseq with hseq | hseq
    · exact hkeep.above seq hseq
    · exact Nat.lt_of_le_of_lt h.le (habove seq hseq)
  · intro seq hseq
    rcases List.mem_append.1 hseq with hseq | hseq
    · exact Nat.le_trans (hlives seq hseq) hle
    · exact hbelow seq hseq

/-! ### Tales -/

/-- What a recipient has been told since the last message about it. -/
structure Tale where
  /-- Who was taken on by that message, if anybody was. -/
  taken : Option Follower
  words : List Word

namespace Tale

/-- The tale of a recipient that no message has been about. -/
def start : Tale := ⟨none, []⟩

def tell (t : Tale) (words : List Word) : Tale := { t with words := t.words ++ words }

def step (who : Recipient) (t : Tale) (d : Deed) : Tale :=
  if d.concerns who then ⟨d.follower?, []⟩ else t.tell (d.wordsTo who)

/-- Whether a tale is as it should be. -/
inductive Obeys : Tale → Prop
  | untaken : Obeys ⟨none, []⟩
  | taken {follower words} : Protocol follower.watermark words → Obeys ⟨some follower, words⟩

theorem obeys_nil {taken : Option Follower} : Obeys ⟨taken, []⟩ := by
  cases taken with
  | none => exact .untaken
  | some follower => exact .taken protocol_nil

theorem Obeys.of_taken {t : Tale} (h : t.Obeys) {follower : Follower} (ht : t.taken = some follower) :
    Protocol follower.watermark t.words := by
  cases h with
  | untaken => cases ht
  | taken hprotocol =>
    cases ht
    exact hprotocol

theorem Obeys.of_untaken {t : Tale} (h : t.Obeys) (ht : t.taken = none) : t.words = [] := by
  cases h with
  | untaken => rfl
  | taken _ => cases ht

theorem tell_nil {t : Tale} : t.tell [] = t := by
  rw [tell, List.append_nil]

theorem tell_tell {t : Tale} {words words' : List Word} :
    (t.tell words).tell words' = t.tell (words ++ words') := by
  simp only [tell, List.append_assoc]

theorem Obeys.of_prefix {t : Tale} {words : List Word} (h : (t.tell words).Obeys) {words' : List Word}
    (hle : words' <+: words) : (t.tell words').Obeys := by
  obtain ⟨taken, told⟩ := t
  have hle : told ++ words' <+: told ++ words := (List.prefix_append_right_inj told).2 hle
  simp only [tell] at h ⊢
  generalize told ++ words' = before at hle ⊢
  generalize told ++ words = all at h hle
  cases h with
  | untaken =>
    rw [List.prefix_nil.1 hle]
    exact .untaken
  | taken hprotocol => exact .taken (hprotocol.of_prefix hle)

end Tale

/-- The tale of a recipient. -/
def taleOf (who : Recipient) (deeds : List Deed) : Tale := deeds.foldl (Tale.step who) .start

section

variable {who : Recipient} {deeds : List Deed}

theorem taleOf_concat {d : Deed} : taleOf who (deeds ++ [d]) = (taleOf who deeds).step who d := by
  rw [taleOf, List.foldl_append]
  rfl

theorem taleOf_append_of_quiet {more : List Deed} (h : ∀ d ∈ more, d.concerns who = false) :
    taleOf who (deeds ++ more) = (taleOf who deeds).tell (more.flatMap (·.wordsTo who)) := by
  rw [taleOf, List.foldl_append, ← taleOf]
  generalize taleOf who deeds = t
  induction more generalizing t with
  | nil => exact Tale.tell_nil.symm
  | cons d rest ih =>
    obtain ⟨hd, hrest⟩ := List.forall_mem_cons.1 h
    rw [List.foldl_cons, ih hrest, List.flatMap_cons, Tale.step, hd, if_neg Bool.false_ne_true,
      Tale.tell_tell]

theorem taleOf_sent {ds : List Delivery} :
    taleOf who (deeds ++ ds.map .sent) = (taleOf who deeds).tell (ds.flatMap (·.wordsTo who)) := by
  rw [taleOf_append_of_quiet, List.flatMap_map]
  · rfl
  · intro d hd
    obtain ⟨x, -, rfl⟩ := List.mem_map.1 hd
    rfl

/-- The tale of a recipient begins with the last message about it. -/
theorem taleOf_of_split {before after : List Deed} {d : Deed} (hd : d.concerns who = true)
    (hafter : ∀ x ∈ after, x.concerns who = false) :
    taleOf who (before ++ d :: after) = ⟨d.follower?, after.flatMap (·.wordsTo who)⟩ := by
  rw [List.append_cons, taleOf_append_of_quiet hafter, taleOf_concat, Tale.step, if_pos hd]
  rfl

/-- Without a message about it, a recipient has been told what has been sent to it. -/
theorem taleOf_of_quiet (h : ∀ d ∈ deeds, d.concerns who = false) :
    taleOf who deeds = ⟨none, deeds.flatMap (·.wordsTo who)⟩ := by
  have htale : taleOf who ([] ++ deeds) = _ := taleOf_append_of_quiet h
  exact htale

/-- Tales that were as they should be up to a message still are when it is handled. -/
theorem obeys_handled (h : ∀ before, before <+: deeds → (taleOf who before).Obeys) {m : Message}
    {latest : Nat} {taken : Bool} :
    ∀ before, before <+: deeds ++ [.handled m latest taken] → (taleOf who before).Obeys := by
  intro before hbefore
  rcases List.prefix_concat_iff.1 hbefore with rfl | hbefore
  · rw [taleOf_concat, Tale.step]
    split
    · exact Tale.obeys_nil
    · exact Tale.tell_nil.symm ▸ h deeds (List.prefix_refl _)
  · exact h before hbefore

/-- Tales that are as they should be when something has been sent were so all along. -/
theorem obeys_sent (h : ∀ before, before <+: deeds → (taleOf who before).Obeys) {ds : List Delivery}
    (hend : (taleOf who (deeds ++ ds.map .sent)).Obeys) :
    ∀ before, before <+: deeds ++ ds.map .sent → (taleOf who before).Obeys := by
  intro before hbefore
  rcases List.prefix_or_prefix_of_prefix hbefore (List.prefix_append deeds _) with hle | ⟨sent, rfl⟩
  · exact h before hle
  -- what has been sent by then is the beginning of what is sent
  · obtain ⟨more, hmore⟩ := (List.prefix_append_right_inj deeds).1 hbefore
    have hquiet : ∀ d ∈ sent ++ more, d.concerns who = false := by
      intro d hd
      rw [hmore] at hd
      obtain ⟨x, -, rfl⟩ := List.mem_map.1 hd
      rfl
    rw [← hmore, taleOf_append_of_quiet hquiet, List.flatMap_append] at hend
    rw [taleOf_append_of_quiet fun d hd => hquiet d (List.mem_append_left _ hd)]
    exact hend.of_prefix (List.prefix_append _ _)

end

end EventRelay
