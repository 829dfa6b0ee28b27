import Mathlib
import EventRelay.Proofs.Scan.Agenda
/-!
# The descent of a scan

What a scan has still to do cannot be counted in a store that changes: new entries may appear in front
of a cursor between any two batches.  But a cursor never goes back.  The keys of its stem below its place
are numbered by their times, of which there are finitely many, and under one key it goes on at smaller
and smaller seqs.  So its place, read as a pair of numbers, descends with every batch that it reads,
whatever the view, and the places of all cursors together bound the batches of a scan.

Main statements: `Cursor.place_absorb` (a batch takes its cursor down) and `Consistent.descended` (a run
that pauses has taken the scan down, or was paused before its first step).
-/

namespace EventRelay

open Std

/-! ### Places -/

/-- The times, as numbers, at which a stem has a key below `key`.  There are too many numbers in the range
for a proof to unfold it. -/
@[irreducible]
def timesBelow (stem key : Bytes) : Finset ℕ :=
  (Finset.range UInt64.size).filter fun t => Bytes.cmp (IndexKey.make stem (.ofNat t)) key = .lt

theorem toNat_mem_timesBelow {stem key : Bytes} {t : UInt64} :
    t.toNat ∈ timesBelow stem key ↔ Bytes.cmp (IndexKey.make stem t) key = .lt := by
  rw [timesBelow, Finset.mem_filter, UInt64.ofNat_toNat]
  exact and_iff_right (Finset.mem_range.2 t.toNat_lt)

theorem timesBelow_subset {stem key key' : Bytes} (h : Bytes.cmp key key' ≠ .gt) :
    timesBelow stem key ⊆ timesBelow stem key' := by
  intro t ht
  simp only [timesBelow, Finset.mem_filter] at ht ⊢
  exact ⟨ht.1, TransCmp.lt_of_lt_of_isLE ht.2 (Ordering.isLE_iff_ne_gt.2 h)⟩

theorem card_timesBelow_le {stem key key' : Bytes} (h : Bytes.cmp key key' ≠ .gt) :
    (timesBelow stem key).card ≤ (timesBelow stem key').card :=
  Finset.card_le_card (timesBelow_subset h)

/-- A key of the stem that lies between two keys is below one of them only. -/
theorem card_timesBelow_lt {stem key key' : Bytes} {t : UInt64}
    (h : Bytes.cmp key (IndexKey.make stem t) ≠ .gt)
    (h' : Bytes.cmp (IndexKey.make stem t) key' = .lt) :
    (timesBelow stem key).card < (timesBelow stem key').card := by
  have hle : Bytes.cmp (IndexKey.make stem t) key' ≠ .gt := by
    rw [h']
    nofun
  have hsubset := @timesBelow_subset stem _ _ (Bytes.cmp_ne_gt_trans h hle)
  refine Finset.card_lt_card ((Finset.ssubset_iff_of_subset hsubset).2 ⟨t.toNat, ?_, ?_⟩)
  · exact toNat_mem_timesBelow.2 h'
  · rw [toNat_mem_timesBelow]
    exact fun hlt => h (OrientedCmp.gt_iff_lt.2 hlt)

namespace Cursor

/-- The place below an entry: the keys of the stem below its key, and the seqs that are left under that
key if it is one of them. -/
def placeAt (stem key : Bytes) (seq : Nat) : ℕ ×ₗ ℕ :=
  toLex ((timesBelow stem key).card, if IndexKey.ownedBy stem key then seq + 2 else 1)

/-- The place of a cursor, as high as there is left to go.  Before its first batch it has all the seqs
under its key ahead, which is a place above every seq; an exhausted cursor has arrived. -/
def place (c : Cursor) : ℕ ×ₗ ℕ :=
  match c.resumeKey, c.resumeSeq with
  | none, _ => 0
  | some key, none => toLex ((timesBelow c.stem key).card + 1, 1)
  | some key, some seq => placeAt c.stem key seq

theorem place_of_not_isActive {c : Cursor} (h : c.isActive = false) : c.place = 0 := by
  have hkey : c.resumeKey = none := by simpa [isActive] using h
  rw [place, hkey]

theorem place_pos {c : Cursor} (h : c.isActive = true) : 0 < c.place := by
  obtain ⟨key, hkey⟩ := Option.isSome_iff_exists.1 h
  rw [place, hkey]
  cases c.resumeSeq with
  | none => exact Prod.Lex.toLex_lt_toLex.2 (.inl (Nat.succ_pos _))
  | some seq =>
    refine Prod.Lex.toLex_lt_toLex'.2 ⟨Nat.zero_le _, fun _ => ?_⟩
    show 0 < if IndexKey.ownedBy c.stem key then seq + 2 else 1
    split <;> omega

/-- Entries behind an entry of the stem have lower places. -/
theorem placeAt_lt {stem : Bytes} {time : UInt64} {seq : Nat} {x e : Entry}
    (htime : x.key = IndexKey.make stem time) (hseq : x.seq ≤ seq) (he : Entry.cmpBack x e = .lt) :
    placeAt stem e.key e.seq < placeAt stem x.key seq := by
  have howned : IndexKey.ownedBy stem x.key = true := htime ▸ IndexKey.ownedBy_make
  rcases Entry.cmpBack_lt_iff.1 he with hlt | ⟨heq, hlt⟩
  · by_cases hown : IndexKey.ownedBy stem e.key = true
    · -- its own key is below the other and not below itself
      obtain ⟨t, ht⟩ := IndexKey.ownedBy_iff_exists.1 hown
      refine Prod.Lex.toLex_lt_toLex.2 (.inl (card_timesBelow_lt (t := t) ?_ (ht ▸ hlt)))
      rw [← ht, Bytes.cmp_self]
      nofun
    · refine Prod.Lex.toLex_lt_toLex'.2 ⟨card_timesBelow_le (by rw [hlt]; nofun), fun _ => ?_⟩
      simp only [howned, if_true, if_neg hown]
      omega
  · rw [heq]
    refine Prod.Lex.toLex_lt_toLex.2 (.inr ⟨rfl, ?_⟩)
    simp only [howned, if_true]
    omega

theorem cmp_key_of_cmpBack {x e : Entry} (h : Entry.cmpBack x e = .lt) :
    Bytes.cmp e.key x.key ≠ .gt := by
  rcases Entry.cmpBack_lt_iff.1 h with hlt | ⟨heq, -⟩
  · rw [hlt]
    nofun
  · rw [heq, Bytes.cmp_self]
    nofun

/-- Behind an entry that a cursor passes, its place is lower. -/
theorem placeAt_lt_place {c : Cursor} {key : Bytes} {time : UInt64} {e x : Entry}
    (hkey : c.resumeKey = some key) (hx : x.isAbove key c.resumeSeq = false)
    (htime : x.key = IndexKey.make c.stem time) (he : Entry.cmpBack x e = .lt) :
    placeAt c.stem e.key e.seq < c.place := by
  have hle := cmp_key_of_cmpBack he
  rw [place, hkey]
  rw [Entry.isAbove] at hx
  cases hcmp : Bytes.cmp x.key key with
  | gt => simp [hcmp] at hx
  | lt =>
    -- the key of the entry that is passed lies between
    have hlt := card_timesBelow_lt (htime ▸ hle) (htime ▸ hcmp)
    cases c.resumeSeq with
    | none => exact Prod.Lex.toLex_lt_toLex.2 (.inl (Nat.lt_succ_of_lt hlt))
    | some seq => exact Prod.Lex.toLex_lt_toLex.2 (.inl hlt)
  | eq =>
    cases LawfulEqCmp.eq_of_compare hcmp
    cases hseq : c.resumeSeq with
    | none => exact Prod.Lex.toLex_lt_toLex.2 (.inl (Nat.lt_succ_of_le (card_timesBelow_le hle)))
    | some seq => exact placeAt_lt htime (by simpa [hcmp, hseq] using hx) he

/-- A batch that is read takes its cursor down. -/
theorem place_absorb {c : Cursor} {v : View} {k : IndexKind} {since : UInt64} {number limit : Nat}
    {f f' : Faults} {b : Batch} (h : c.collect v f k since number limit = (.ok b, f'))
    (hlimit : 0 < limit) :
    (c.absorb b).place < c.place ∨ (c.absorb b).place = c.place ∧ b.candidates = [] := by
  rcases eq_of_collect h with ⟨hidle, rfl⟩ | ⟨hactive, -⟩
  · refine .inr ⟨?_, rfl⟩
    rw [place_of_not_isActive hidle, place_of_not_isActive isActive_absorb]
  · refine .inl ?_
    cases hb : b.next with
    | none =>
      rw [place_of_not_isActive (by rw [isActive_absorb, hb]; rfl)]
      exact place_pos hactive
    | some e =>
      obtain ⟨passed, -, hcoming, hfull, hnext⟩ := collect_spec h
      obtain ⟨rest, hahead⟩ := hnext e hb
      obtain ⟨x, hx⟩ := List.exists_mem_of_length_pos (hfull (by rw [hb]; rfl) ▸ hlimit)
      obtain ⟨time, htime, -⟩ :=
        takes_iff.1 (takes_of_mem_coming (hcoming ▸ List.mem_append_left _ hx))
      have hord := pairwise_ahead (c := c) (v := v) (k := k)
      have hxahead : x ∈ c.ahead v k := hahead ▸ List.mem_append_left _ hx
      rw [hahead] at hord
      obtain ⟨key, hkey⟩ := Option.isSome_iff_exists.1 hactive
      simp only [ahead, hkey] at hxahead
      have hplace : (c.absorb b).place = placeAt c.stem e.key e.seq := by
        simp only [absorb, hb, place]
      rw [hplace]
      exact placeAt_lt_place hkey (Table.mem_back.1 hxahead).2 htime
        ((List.pairwise_append.1 hord).2.2 x hx e List.mem_cons_self)

end Cursor

/-! ### Sums of places -/

section

variable {α M : Type} [AddCommMonoid M] {g : α → M} {l : List α} {i : Nat} {a b : α}

theorem sum_map_set (h : l[i]? = some a) :
    ∃ others, (l.map g).sum = g a + others ∧ ((l.set i b).map g).sum = g b + others := by
  obtain ⟨hi, ha⟩ := List.getElem?_eq_some_iff.1 h
  refine ⟨((l.eraseIdx i).map g).sum, ?_, ?_⟩
  · rw [← ((List.getElem_cons_eraseIdx_perm hi).map g).sum_eq, ha, List.map_cons, List.sum_cons]
  · rw [((List.set_perm_cons_eraseIdx hi b).map g).sum_eq, List.map_cons, List.sum_cons]

end

namespace Scan

/-- The ranks of scans, ordered by the places and then by what waits. -/
abbrev Rank := (ℕ ×ₗ ℕ) ×ₗ ℕ

/-- How far the cursors of a scan have still to go down. -/
def places (s : Scan) : ℕ ×ₗ ℕ := (s.cursors.map Cursor.place).sum

/-- How far a scan has still to go: its cursors have to go down, and where they stand still, cursors are
seeded or candidates leave. -/
def rank (s : Scan) : Rank :=
  toLex (s.places, s.cursors.length - s.seeded + s.buffer.length)

/-- A step that takes one cursor down, or leaves it where it is and has less waiting, takes the scan
down. -/
theorem rank_lt_of_set {s s' : Scan} {i : Nat} {c c' : Cursor} (hc : s.cursors[i]? = some c)
    (hcursors : s'.cursors = s.cursors.set i c')
    (h : c'.place < c.place ∨ c'.place = c.place
      ∧ s'.cursors.length - s'.seeded + s'.buffer.length
        < s.cursors.length - s.seeded + s.buffer.length) : s'.rank < s.rank := by
  obtain ⟨others, hold, hnew⟩ := sum_map_set (g := Cursor.place) (b := c') hc
  rw [← hcursors] at hnew
  refine Prod.Lex.toLex_lt_toLex.2 ?_
  show s'.places < s.places ∨ s'.places = s.places ∧ _
  rw [places, places, hold, hnew]
  rcases h with hlt | ⟨heq, hlt⟩
  · exact .inl (add_lt_add_left hlt others)
  · exact .inr ⟨by rw [heq], hlt⟩

theorem Consistent.rank_seed_lt {s : Scan} (hs : s.Consistent) {v : View} {f f' : Faults} {c : Cursor}
    {b : Batch} (hc : s.cursors[s.seeded]? = some c)
    (hb : c.collect v f s.index s.filter.since s.seeded s.initialBatch = (.ok b, f')) :
    (s.seed c b).rank < s.rank := by
  have hlen := (List.getElem?_eq_some_iff.1 hc).1
  refine @rank_lt_of_set s (s.seed c b) s.seeded c (c.absorb b) hc rfl ?_
  rcases Cursor.place_absorb hb hs.batch_pos with hlt | ⟨heq, hnone⟩
  · exact .inl hlt
  · refine .inr ⟨heq, ?_⟩
    rw [perm_buffer_seed.length_eq, hnone, List.append_nil]
    simp only [Scan.seed, List.length_set]
    omega

/-- The place of a cursor does not depend on how many of its candidates wait. -/
theorem place_release {c : Cursor} {b : Option Batch} :
    (release c b).place = match b with
      | none => c.place
      | some b => (c.absorb b).place := by
  cases b with
  | none => rfl
  | some b =>
    show (Cursor.absorb { c with outstanding := c.outstanding - 1 } b).place = (c.absorb b).place
    simp only [Cursor.absorb]
    cases b.next <;> rfl

theorem Consistent.rank_pop_lt {s : Scan} (hs : s.Consistent) {v : View} {f f' : Faults}
    {next : Candidate} {rest : List Candidate} {b : Option Batch}
    (hall : s.seeded = s.cursors.length) (hbuffer : s.buffer = next :: rest)
    (hb : s.refill v f next.cursor = (.ok b, f')) : (s.pop next rest b).rank < s.rank := by
  have hlen : next.cursor < s.cursors.length := hall ▸ hs.numbered next (by simp [hbuffer])
  have hc : s.cursors[next.cursor]? = some s.cursors[next.cursor] := List.getElem?_eq_getElem hlen
  -- a candidate leaves, and nothing comes for it unless its cursor goes down
  have hfewer : brought b = [] →
      (s.pop next rest b).cursors.length - (s.pop next rest b).seeded + (s.pop next rest b).buffer.length
        < s.cursors.length - s.seeded + s.buffer.length := by
    intro hnone
    rw [perm_buffer_pop.length_eq, hnone, List.append_nil, cursors_pop hc, List.length_set, hbuffer,
      List.length_cons]
    exact Nat.lt_succ_self _
  refine rank_lt_of_set hc (cursors_pop hc) ?_
  rw [place_release]
  cases refilled hc hb with
  | nothing _ => exact .inr ⟨rfl, hfewer rfl⟩
  | next _ hbatch =>
    exact (Cursor.place_absorb hbatch (Nat.mul_pos (by decide) hs.batch_pos)).imp_right
      fun h => ⟨h.1, hfewer h.2⟩

/-! ### Steps and runs -/

theorem Consistent.rank_lt_of_seeded {s s' : Scan} (hs : s.Consistent) {v : View} {f : Faults}
    (h : (s.advance v f).outcome = .seeded s') : s'.rank < s.rank := by
  rw [advance] at h
  split at h
  · rename_i c hc
    split at h
    · cases h
    · rename_i b f' hb
      cases h
      exact hs.rank_seed_lt hc hb
  · split at h
    · cases h
    · simp only at h
      split at h
      · cases h
      · split at h <;> cases h

theorem Consistent.rank_lt_of_judged {s s' : Scan} (hs : s.Consistent) {v : View} {f : Faults}
    {seq : Nat} {accepted : Bool} (h : (s.advance v f).outcome = .judged s' seq accepted) :
    s'.rank < s.rank := by
  rw [advance] at h
  split at h
  · split at h <;> cases h
  · rename_i hc
    split at h
    · cases h
    · rename_i next rest hbuffer
      simp only at h
      split at h
      · cases h
      · split at h
        · cases h
        · rename_i b f' hb
          cases h
          exact (hs.withWork (s.work + s.judgingCost)).rank_pop_lt (hs.seeded_eq hc) hbuffer hb

section

variable {σ : Type} {control : Control σ} {s s' : Scan} {a a' : σ} {r : Run σ}

/-- A run that pauses has taken its scan down, or was paused before its first step. -/
def Descended (control : Control σ) (s : Scan) (a : σ) (r : Run σ) : Prop :=
  ∃ b, control.pause b r.scan.work = (r.state, true)
    ∧ (r.scan.rank < s.rank ∨ r.scan.rank = s.rank ∧ r.scan.work = s.work + 1 ∧ b = a)

/-- What comes behind a step that goes down does not go up again. -/
theorem Descended.behind (h : Descended control s' a' r) (hlt : s'.rank < s.rank) :
    Descended control s a r := by
  obtain ⟨b, hb, hless | ⟨hsame, -⟩⟩ := h
  · exact ⟨b, hb, .inl (hless.trans hlt)⟩
  · exact ⟨b, hb, .inl (hsame ▸ hlt)⟩

/-- Whatever the view, a run that pauses has taken the scan down. -/
theorem Consistent.descended (hs : s.Consistent) {v : View} {f : Faults} {reports : List CorruptRow}
    (h : (run control v s f a reports).outcome = .ok false) :
    Descended control s a (run control v s f a reports) := by
  fun_induction run control v s f a reports with
  | case1 s f a reports s' a' hp => exact ⟨a, hp, .inr ⟨rfl, rfl, rfl⟩⟩
  | case2 => cases h
  | case3 => cases h
  | case4 s f a reports s' a' hp s'' f' found hadv ih =>
    have hlt : s''.rank < s.rank :=
      (hs.withWork (s.work + 1)).rank_lt_of_seeded (congrArg Reading.outcome hadv)
    cases hs.progress_of_advance hadv with
    | seeded hs'' => exact (ih hs'' h).behind hlt
  | case5 => cases h
  | case6 s f a reports s' a' hp s'' seq f' found a'' hm hadv ih =>
    have hlt : s''.rank < s.rank :=
      (hs.withWork (s.work + 1)).rank_lt_of_judged (congrArg Reading.outcome hadv)
    cases hs.progress_of_advance hadv with
    | judged hs'' => exact (ih hs'' h).behind hlt
  | case7 s f a reports s' a' hp s'' seq accepted f' found hadv hacc ih =>
    have hlt : s''.rank < s.rank :=
      (hs.withWork (s.work + 1)).rank_lt_of_judged (congrArg Reading.outcome hadv)
    cases hs.progress_of_advance hadv with
    | judged hs'' => exact (ih hs'' h).behind hlt

end

end Scan

end EventRelay
