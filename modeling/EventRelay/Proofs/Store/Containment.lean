import EventRelay.Proofs.Store.Damage
import EventRelay.Proofs.Store.Queries
/-!
# Reads that meet damaged rows

A row is read in two stages, and both can fail: its cells are taken as values of the types of their columns,
and the values are decoded.  A cell of another type is put down to the row, as is a value that does not
decode; what is put down to a row makes it missing, and any other failure fails the read.  So it is a fact
about the columns that no read fails: no cell that can stand in them fails in another way.

A read of one row and a walk over the rows take the same rows for missing.  Overwriting cells changes nothing
but what is read from their rows.

Main statements: `Row.read_eq`, `RowStore.readEvent_eq` and `RowStore.readEventsAfter_eq` (the reads that can
fail are the reader, which cannot), `RowStore.damage_contained`.
-/

namespace EventRelay

/-! ### Cells as values -/

/-- Why a value is not read from a column. -/
inductive ColumnError where
  | invalidType
  | outOfRange
  | conversionFailure
  deriving DecidableEq

namespace Cell

def bytes : Cell → Except ColumnError Bytes
  | .blob s => .ok s
  | _ => .error .invalidType

def word : Cell → Except ColumnError Int64
  | .integer n => .ok n
  | _ => .error .invalidType

def optionalWord : Cell → Except ColumnError (Option Int64)
  | .null => .ok none
  | c => c.word.map some

end Cell

/-- The values in the columns of a row, and its number. -/
structure RawEvent where
  number : Int64
  id : Bytes
  author : Bytes
  createdAt : Int64
  kind : Int64
  expiration : Option Int64
  tags : Bytes

/-- Why a row is not read. -/
inductive RowError where
  | corrupt (seq : UInt64) (why : Corruption)
  | column (cause : ColumnError)
  deriving DecidableEq

namespace RawEvent

/-- Reads the columns one after the other. -/
def ofRow (number : Int64) (r : Row) : Except ColumnError RawEvent := do
  let id ← r.id.bytes
  let author ← r.author.bytes
  let createdAt ← r.createdAt.word
  let kind ← r.kind.word
  let expiration ← r.expiration.optionalWord
  let tags ← r.tags.bytes
  return ⟨number, id, author, createdAt, kind, expiration, tags⟩

/-- Decodes the values. -/
def toEvent (raw : RawEvent) : Except RowError (UInt64 × Event) :=
  let seq := Row.unsigned raw.number
  match Id.ofBytes? raw.id with
  | none => .error (.corrupt seq .idSize)
  | some id =>
    match Id.ofBytes? raw.author with
    | none => .error (.corrupt seq .authorSize)
    | some author =>
      match Row.unpackTags raw.tags with
      | .error why => .error (.corrupt seq why)
      | .ok tags =>
        .ok (seq, ⟨id, author, Row.unsigned raw.createdAt, Row.unsigned raw.kind,
          raw.expiration.map Row.unsigned, tags⟩)

end RawEvent

/-! ### Rows -/

namespace Row

/-- Reads a row.  A cell that holds no value of the type of its column is put down to the row. -/
def read (number : Int64) (r : Row) : Except RowError (UInt64 × Event) :=
  match RawEvent.ofRow number r with
  | .ok raw => raw.toEvent
  | .error .invalidType | .error .conversionFailure => .error (.corrupt (unsigned number) .wrongType)
  | .error .outOfRange => .error (.column .outOfRange)

/-- The stages of a read come to one decoding of the row; what keeps a row from being read is always put
down to it. -/
theorem read_eq (number : Int64) (r : Row) :
    r.read number =
      match r.decode with
      | .ok e => .ok (unsigned number, e)
      | .error why => .error (.corrupt (unsigned number) why) := by
  obtain ⟨id, author, createdAt, kind, expiration, tags, json⟩ := r
  -- column by column, as the first stage goes
  cases id with
  | null | integer | real | text => rfl
  | blob id =>
  cases author with
  | null | integer | real | text => rfl
  | blob author =>
  cases createdAt with
  | null | blob | real | text => rfl
  | integer createdAt =>
  cases kind with
  | null | blob | real | text => rfl
  | integer kind =>
  cases expiration with
  | blob | real | text => rfl
  | null | integer =>
    cases tags with
    | null | integer | real | text => rfl
    | blob tags =>
      simp only [decode, expiration?]
      change RawEvent.toEvent _ = _
      simp only [RawEvent.toEvent]
      cases Id.ofBytes? id with
      | none => rfl
      | some id =>
        cases Id.ofBytes? author with
        | none => rfl
        | some author => cases unpackTags tags <;> rfl

end Row

/-- Leaves out a row that cannot be read for a reason that is put down to it. -/
def skipCorrupt {α : Type} : Except RowError α → Except RowError (Option α)
  | .ok found => .ok (some found)
  | .error (.corrupt _ _) => .ok none
  | .error (.column cause) => .error (.column cause)

/-- A row is left out exactly if it is not an event that is stored. -/
theorem skipCorrupt_read (number : Int64) (r : Row) :
    skipCorrupt (r.read number) = .ok (r.stored.event?.map fun e => (Row.unsigned number, e)) := by
  rw [Row.read_eq, Row.stored]
  cases r.decode <;> rfl

namespace RowStore

/-! ### Reads that can fail -/

/-- The event of a seq, if there is a row of it that can be read. -/
def readEvent (s : RowStore) (seq : UInt64) : Except RowError (Option Event) :=
  match s.rows.entries.find? fun b => number b.1 = cut seq with
  | none => .ok none
  | some b => (skipCorrupt (b.2.read (number b.1))).map (·.map Prod.snd)

/-- Shows the events of rows to a visitor until it declines to go on or a row fails to be read. -/
def visitRows {σ : Type} (visit : σ → UInt64 × Event → σ × Bool) (state : σ) :
    List (Nat × Row) → Except RowError σ
  | [] => .ok state
  | b :: rest =>
    match skipCorrupt (b.2.read (number b.1)) with
    | .error e => .error e
    | .ok none => visitRows visit state rest
    | .ok (some found) =>
      match visit state found with
      | (state, true) => visitRows visit state rest
      | (state, false) => .ok state

/-- Walks the events above a seq. -/
def readEventsAfter (s : RowStore) {σ : Type} (after : UInt64)
    (visit : σ → UInt64 × Event → σ × Bool) (state : σ) : Except RowError σ :=
  visitRows visit state (s.rowsAfter after)

variable {s t : RowStore}

/-- No read of a row fails: the answer is the reader's. -/
theorem readEvent_eq (s : RowStore) (seq : UInt64) : s.readEvent seq = .ok (s.reader.event? seq) := by
  simp only [readEvent, reader]
  cases s.rows.entries.find? fun b => number b.1 = cut seq with
  | none => rfl
  | some b =>
    simp only [skipCorrupt_read, Option.bind_some]
    cases b.2.stored.event? <;> rfl

theorem visitRows_eq {σ : Type} (visit : σ → UInt64 × Event → σ × Bool) (state : σ)
    (rows : List (Nat × Row)) :
    visitRows visit state rows = .ok (visitAll visit state (rows.filterMap fun b =>
      b.2.stored.event?.map fun e => (Row.unsigned (number b.1), e))).1 := by
  induction rows generalizing state with
  | nil => rfl
  | cons b rest ih =>
    rw [visitRows, skipCorrupt_read]
    cases h : b.2.stored.event? with
    | none =>
      rw [List.filterMap_cons_none (by rw [h]; rfl)]
      exact ih state
    | some e =>
      rw [List.filterMap_cons_some (by rw [h]; rfl)]
      simp only [Option.map_some, visitAll]
      rcases visit state (Row.unsigned (number b.1), e) with ⟨state, more⟩
      cases more with
      | true => exact ih state
      | false => rfl

/-- No walk over the rows fails: it goes as the reader's does. -/
theorem readEventsAfter_eq (s : RowStore) {σ : Type} (after : UInt64)
    (visit : σ → UInt64 × Event → σ × Bool) (state : σ) :
    s.readEventsAfter after visit state = .ok (s.reader.eventsAfter after visit state) :=
  visitRows_eq visit state (s.rowsAfter after)

/-! ### Stores whose rows are numbered -/

/-- Every row number has been given out, and row numbers are signed words. -/
structure Counted (s : RowStore) : Prop where
  row_le : ∀ b ∈ s.rows.entries, b.1 ≤ s.lastSeq
  lastSeq_le : s.lastSeq ≤ maxSeq

theorem Counted.row_le_maxSeq (hs : s.Counted) {b : Nat × Row} (hb : b ∈ s.rows.entries) : b.1 ≤ maxSeq :=
  Nat.le_trans (hs.row_le b hb) hs.lastSeq_le

theorem counted_empty : empty.Counted where
  row_le _ hb := nomatch hb
  lastSeq_le := Nat.zero_le maxSeq

theorem Counted.insert (hs : s.Counted) {e : Event} {json : String} {seq : Option Nat}
    (h : s.insert e json = .ok (seq, t)) : t.Counted := by
  rw [RowStore.insert] at h
  split at h
  · cases h
  split at h
  · cases h
    exact hs
  split at h
  · cases h
  rename_i hroom
  cases h
  refine ⟨fun b hb => ?_, Nat.succ_le_of_lt (Nat.lt_of_not_le hroom)⟩
  rcases (SeqMap.mem_place s.rows.descending).1 hb with rfl | ⟨hb, -⟩
  · exact Nat.le_refl _
  · exact Nat.le_succ_of_le (hs.row_le b hb)

theorem Counted.delete? (hs : s.Counted) {seq : Nat} (h : s.delete? seq = some t) : t.Counted := by
  obtain ⟨row, -, rfl⟩ := Option.map_eq_some_iff.1 h
  exact ⟨fun b hb => hs.row_le b (List.mem_of_mem_filter hb), hs.lastSeq_le⟩

/-- An overwrite changes one row, if any. -/
theorem overwrite_cases {seq changed : Nat} {c : Column} {v : Cell}
    (h : s.overwrite seq c v = .ok (changed, t)) :
    t = s ∨ ∃ r r', s.rows.get? seq = some r ∧ t = { s with rows := s.rows.insert seq r' } := by
  simp only [overwrite] at h
  split at h
  · cases h
    exact .inl rfl
  rename_i r hr
  split at h
  · cases h
  split at h
  · cases h
  cases h
  exact .inr ⟨r, _, hr, rfl⟩

theorem Counted.overwrite (hs : s.Counted) {seq changed : Nat} {c : Column} {v : Cell}
    (h : s.overwrite seq c v = .ok (changed, t)) : t.Counted := by
  rcases overwrite_cases h with rfl | ⟨r, r', hr, rfl⟩
  · exact hs
  refine ⟨fun b hb => ?_, hs.lastSeq_le⟩
  rcases (SeqMap.mem_place s.rows.descending).1 hb with rfl | ⟨hb, -⟩
  · exact hs.row_le (seq, r) (SeqMap.mem_entries_iff.2 hr)
  · exact hs.row_le b hb

end RowStore

/-- The row numbers of a table store are counted; a memory store has none. -/
def Store.Counted : Store → Prop
  | .memory _ => True
  | .rows s => s.Counted

/-- Whatever becomes of a store, its rows stay counted. -/
theorem Store.Later.counted {s t : Store} (h : s.Later t) (hs : s.Counted) : t.Counted := by
  induction h with
  | refl => exact hs
  | @insert t u e text seq _ hins ih =>
    cases t with
    | memory t =>
      cases hins
      trivial
    | rows t =>
      simp only [insertWithText] at hins
      split at hins
      · rename_i hrows
        cases hins
        exact RowStore.Counted.insert ih hrows
      · cases hins
  | @delete t u seq _ hdel ih =>
    cases t with
    | memory t =>
      obtain ⟨t, -, rfl⟩ := Option.map_eq_some_iff.1 hdel
      trivial
    | rows t =>
      obtain ⟨t', ht', rfl⟩ := Option.map_eq_some_iff.1 hdel
      exact RowStore.Counted.delete? ih ht'
  | overwrite _ hover ih => exact RowStore.Counted.overwrite ih hover

namespace RowStore

/-! ### What the reader shows -/

variable {s t : RowStore}

/-- A seq above all row numbers is read as the largest of them. -/
theorem Counted.event?_reader (hs : s.Counted) {seq : UInt64} :
    s.reader.event? seq = (s.rows.get? (min seq.toNat maxSeq)).bind fun row => row.stored.event? := by
  have hfind : (s.rows.entries.find? fun b => number b.1 = cut seq) =
      s.rows.entries.find? fun b => b.1 = min seq.toNat maxSeq :=
    List.find?_congr fun b hb => decide_eq_decide.2 (number_eq_cut_iff (hs.row_le_maxSeq hb))
  rw [reader, SeqMap.get?, ← hfind, Option.bind_map]
  rfl

/-- A seq that shows an event is a row number, unless the row numbers are used up. -/
theorem Counted.toNat_le_maxSeq (hs : s.Counted) (hroom : s.lastSeq < maxSeq) {seq : UInt64} {e : Event}
    (h : s.reader.event? seq = some e) : seq.toNat ≤ maxSeq := by
  rw [hs.event?_reader, Option.bind_eq_some_iff] at h
  obtain ⟨row, hrow, -⟩ := h
  have hlast : min seq.toNat maxSeq ≤ s.lastSeq := hs.row_le (_, row) (SeqMap.mem_entries_iff.2 hrow)
  omega

theorem toNat_number {n : Nat} (h : n ≤ maxSeq) : (number n).toUInt64.toNat = n := by
  rw [number, Int64.toUInt64_ofNat']
  exact UInt64.toNat_ofNat_of_lt' (Nat.lt_of_le_of_lt h (by decide))

theorem Counted.above_eq (hs : s.Counted) {after : UInt64} :
    s.reader.above after = (s.rows.after after.toNat).filterMap fun b =>
      b.2.stored.event?.map fun e => ((number b.1).toUInt64, e) := by
  simp only [reader, rowsAfter_eq fun b hb => hs.row_le_maxSeq hb]

/-- The events above a seq are those that the seqs above it show. -/
theorem Counted.mem_above_iff (hs : s.Counted) {after seq : UInt64} {e : Event} :
    (seq, e) ∈ s.reader.above after ↔
      after < seq ∧ seq.toNat ≤ maxSeq ∧ s.reader.event? seq = some e := by
  simp only [hs.above_eq, hs.event?_reader, List.mem_filterMap, Prod.exists, Option.map_eq_some_iff,
    SeqMap.mem_after, Prod.mk.injEq, Option.bind_eq_some_iff]
  constructor
  · rintro ⟨n, row, ⟨hrow, hafter⟩, e, he, rfl, rfl⟩
    have hn : n ≤ maxSeq := hs.row_le_maxSeq (SeqMap.mem_entries_iff.2 hrow)
    rw [UInt64.lt_iff_toNat_lt, toNat_number hn, Nat.min_eq_left hn]
    exact ⟨hafter, hn, row, hrow, he⟩
  · rintro ⟨hafter, hseq, row, hrow, he⟩
    rw [Nat.min_eq_left hseq] at hrow
    refine ⟨seq.toNat, row, ⟨hrow, UInt64.lt_iff_toNat_lt.1 hafter⟩, e, he, ?_, rfl⟩
    rw [← UInt64.toNat_inj, toNat_number hseq]

theorem Counted.pairwise_above (hs : s.Counted) {after : UInt64} :
    (s.reader.above after).Pairwise fun a b => a.1 < b.1 := by
  rw [hs.above_eq, List.pairwise_filterMap]
  refine SeqMap.pairwise_after.imp_of_mem fun {a b} ha hb hab x hx y hy => ?_
  obtain ⟨e, -, rfl⟩ := Option.map_eq_some_iff.1 hx
  obtain ⟨e', -, rfl⟩ := Option.map_eq_some_iff.1 hy
  have hrow : ∀ {c : Nat × Row}, c ∈ s.rows.after after.toNat → c.1 ≤ maxSeq :=
    fun hc => hs.row_le_maxSeq (SeqMap.mem_entries_iff.2 (SeqMap.mem_after.1 hc).1)
  rw [UInt64.lt_iff_toNat_lt, toNat_number (hrow ha), toNat_number (hrow hb)]
  exact hab

/-! ### Overwritten rows -/

/-- Cells in the rows of some seqs are overwritten, one after the other, as the constraints of their
columns allow. -/
inductive Tampered (seqs : Nat → Prop) (s : RowStore) : RowStore → Prop
  | refl : Tampered seqs s s
  | overwrite {t u : RowStore} {seq : Nat} {column : Column} {cell : Cell} {changed : Nat} :
      Tampered seqs s t → seqs seq → t.overwrite seq column cell = .ok (changed, u) → Tampered seqs s u

variable {seqs : Nat → Prop}

theorem Tampered.counted (h : Tampered seqs s t) (hs : s.Counted) : t.Counted := by
  induction h with
  | refl => exact hs
  | overwrite _ _ hover ih => exact ih.overwrite hover

/-- The last seq and the index tables are not in the rows. -/
theorem Tampered.frame (h : Tampered seqs s t) : t.lastSeq = s.lastSeq ∧ t.indices = s.indices := by
  induction h with
  | refl => exact ⟨rfl, rfl⟩
  | overwrite _ _ hover ih =>
    rcases overwrite_cases hover with rfl | ⟨r, r', -, rfl⟩
    · exact ih
    · exact ih

theorem Tampered.get?_eq (h : Tampered seqs s t) {seq : Nat} (hseq : ¬ seqs seq) :
    t.rows.get? seq = s.rows.get? seq := by
  induction h with
  | refl => rfl
  | overwrite _ hmem hover ih =>
    rcases overwrite_cases hover with rfl | ⟨r, r', -, rfl⟩
    · exact ih
    · rw [SeqMap.get?_insert, if_neg, ih]
      rintro rfl
      exact hseq hmem

/-- Damage is contained.  However the cells of some rows are overwritten, no read of an event and no walk
over the events fails; a walk shows the events of the seqs above its start, in ascending order; the last seq
and the walks over the index tables are what they were, and so is the event of every seq that is not read
from an overwritten row.  A seq above all row numbers is read as the largest of them, and only where the row
numbers are used up does it show an event that the walks do not show under it. -/
theorem damage_contained (hs : s.Counted) (h : Tampered seqs s t) :
    (∀ seq, t.readEvent seq = .ok none ∨ ∃ e, t.readEvent seq = .ok (some e)) ∧
    (∀ after, ∃ shown : List (UInt64 × Event),
      shown.Pairwise (fun a b => a.1 < b.1) ∧
      (∀ seq e, (seq, e) ∈ shown ↔
        after < seq ∧ seq.toNat ≤ maxSeq ∧ t.readEvent seq = .ok (some e)) ∧
      (t.lastSeq < maxSeq → ∀ seq e, (seq, e) ∈ shown ↔ after < seq ∧ t.readEvent seq = .ok (some e)) ∧
      ∀ (σ : Type) (visit : σ → UInt64 × Event → σ × Bool) (state : σ),
        t.readEventsAfter after visit state = .ok (visitAll visit state shown).1) ∧
    t.reader.latestSeq = s.reader.latestSeq ∧
    (∀ (σ : Type) k key seq (visit : σ → Bytes × UInt64 → σ × Bool) (state : σ),
      t.reader.scanBack k key seq visit state = s.reader.scanBack k key seq visit state) ∧
    ∀ seq : UInt64, ¬ seqs (min seq.toNat maxSeq) → t.readEvent seq = s.readEvent seq := by
  have ht : t.Counted := h.counted hs
  obtain ⟨hlast, hindices⟩ := h.frame
  have hread : ∀ {seq e}, t.readEvent seq = .ok (some e) ↔ t.reader.event? seq = some e := by
    intro seq e
    rw [readEvent_eq, Except.ok.injEq]
  refine ⟨fun seq => ?event, fun after => ⟨t.reader.above after, ht.pairwise_above, fun seq e => ?shown,
    fun hroom seq e => ?shown', fun σ visit state => readEventsAfter_eq t after visit state⟩, ?latest,
    fun σ k key seq visit state => ?scan, fun seq hseq => ?other⟩
  case event =>
    rw [readEvent_eq]
    cases t.reader.event? seq with
    | none => exact .inl rfl
    | some e => exact .inr ⟨e, rfl⟩
  case shown => rw [hread, ht.mem_above_iff]
  case shown' =>
    rw [hread, ht.mem_above_iff]
    exact and_congr_right fun _ => and_iff_right_of_imp (ht.toNat_le_maxSeq hroom)
  case latest => rw [reader, reader, hlast]
  case scan => simp only [Reader.scanBack, reader, entriesBack, hindices]
  case other => rw [readEvent_eq, readEvent_eq, ht.event?_reader, hs.event?_reader, h.get?_eq hseq]

/-- The damage to a store whose only row has a text for an id: the row is missing, and that is all. -/
theorem damage_contained_textId :
    let e : Event := ⟨⟨List.replicate 32 1, rfl⟩, ⟨List.replicate 32 2, rfl⟩, 10, 1, none, [⟨116, [120]⟩]⟩
    let s : RowStore := ⟨1, SeqMap.empty.insert 1 (.ofEvent e [116, 1, 120] ""),
      Indices.empty.add 1 e.indexEntries⟩
    let t : RowStore := damaged e [116, 1, 120]
    s.Counted ∧ Tampered (· = 1) s t ∧ s.readEvent 1 = .ok (some e) ∧ t.readEvent 1 = .ok none ∧
      t.reader.latestSeq = s.reader.latestSeq ∧
      ∀ seq : UInt64, min seq.toNat maxSeq ≠ 1 → t.readEvent seq = s.readEvent seq := by
  intro e s t
  have hpacked : Row.packTags? e.tags = some [116, 1, 120] := rfl
  have hinsert : (Store.rows .empty).insertWithText e "" = .ok (some 1, .rows s) := rfl
  have hs : s.Counted := (Store.Later.refl.insert hinsert).counted counted_empty
  have hread : s.readEvent 1 = .ok (some e) := by
    have hrow : s.rows.get? (min (1 : UInt64).toNat maxSeq) = some (.ofEvent e [116, 1, 120] "") := rfl
    rw [readEvent_eq, hs.event?_reader, hrow, Option.bind_some, Row.stored_ofEvent hpacked]
    rfl
  have hover : s.overwrite 1 .id (.text "") = .ok (1, t) := rfl
  have ht : Tampered (· = 1) s t := .overwrite .refl rfl hover
  have hcontained := damage_contained hs ht
  exact ⟨hs, ht, hread, rfl, hcontained.2.2.1, hcontained.2.2.2.2⟩

end RowStore

end EventRelay
