import Mathlib.Data.List.Induction
import EventRelay.Proofs.Store.Queries
/-!
# Two stores with one history

A table store and a memory store go through the same operations: both delete the same seqs, and the
memory store stores what the table store accepts.  Packed rows, signed row numbers and bounds that are
cut then make no difference to a reader, as long as the row numbers last.

Main statements: `Twins.sound_run` (both stores show the same view) and `Twins.indistinguishable` (what
the table store refuses, and that all else is the same on both).
-/

namespace EventRelay

/-- An operation on a store. -/
inductive Operation where
  | insert (e : Event) (text : String)
  | delete (seq : UInt64)
  | reopen

namespace Operation

def isInsert : Operation → Bool
  | insert _ _ => true
  | _ => false

/-- How many insertions are tried. -/
def inserts (ops : List Operation) : Nat := ops.countP isInsert

end Operation

structure Twins where
  rows : RowStore
  memory : MemoryStore

namespace Twins

def start : Twins := ⟨.empty, .empty⟩

/-- The memory store stores an event if the table store gave it a seq.  Only the table store can be
opened again. -/
def step (t : Twins) : Operation → Twins
  | .insert e text =>
    match t.rows.insert e text with
    | .ok (some _, rows) => ⟨rows, t.memory.insert e⟩
    | .ok (none, rows) => ⟨rows, t.memory⟩
    | .error _ => t
  | .delete seq => ⟨(t.rows.delete seq).2, (t.memory.delete seq).2⟩
  | .reopen => ⟨t.rows.reopen, t.memory⟩

def run (ops : List Operation) : Twins := ops.foldl step start

/-- The outcome of an insertion. -/
structure InsertsAlike (t : Twins) (e : Event) (text : String) : Prop where
  /-- An event is refused for a tag value that is too long, -/
  fails_iff : (∃ cause, t.rows.insert e text = .error cause) ↔
    ∃ tag ∈ e.tags, Tag.maxValueSize < tag.value.length
  /-- else it is a duplicate if an event of its id is stored, -/
  isDuplicate_iff : (∃ rows, t.rows.insert e text = .ok (none, rows)) ↔
    (∀ tag ∈ e.tags, tag.value.length ≤ Tag.maxValueSize) ∧ t.rows.reader.Holds e.id
  /-- and in both cases nothing changes; -/
  step_eq_self : (∀ seq rows, t.rows.insert e text ≠ .ok (some seq, rows)) →
    t.step (.insert e text) = t
  /-- else it gets the seq that it gets of the memory store. -/
  seq_eq : ∀ seq rows, t.rows.insert e text = .ok (some seq, rows) → seq = (t.memory.insert e).lastSeq

/-- Every read has the same result on both stores. -/
structure ReadsAlike (t : Twins) : Prop where
  latestSeq_eq : t.rows.reader.latestSeq = t.memory.reader.latestSeq
  event?_eq : ∀ seq, t.rows.reader.event? seq = t.memory.reader.event? seq
  scanBack_eq : ∀ {σ : Type} k key seq (visit : σ → Bytes × UInt64 → σ × Bool) state,
    t.rows.reader.scanBack k key seq visit state = t.memory.reader.scanBack k key seq visit state
  eventsAfter_eq : ∀ {σ : Type} seq (visit : σ → UInt64 × Event → σ × Bool) state,
    t.rows.reader.eventsAfter seq visit state = t.memory.reader.eventsAfter seq visit state

/-! ### What the stores have in common -/

/-- Both stores show one view, and the table store has given out at most `n` seqs.  Every row was made
of an event. -/
structure Sound (t : Twins) (n : Nat) : Prop where
  view_eq : t.rows.view = t.memory.view
  mirrors : t.rows.view.Mirrors
  written : ∀ b ∈ t.rows.rows.entries, ∃ e packed text,
    Row.packTags? e.tags = some packed ∧ b.2 = .ofEvent e packed text
  lastSeq_le : t.rows.lastSeq ≤ n

variable {t : Twins} {n : Nat} {e : Event} {text : String}

theorem Sound.mono {m : Nat} (h : t.Sound n) (hle : n ≤ m) : t.Sound m :=
  ⟨h.view_eq, h.mirrors, h.written, Nat.le_trans h.lastSeq_le hle⟩

theorem Sound.spacious (h : t.Sound n) (hn : n < RowStore.maxSeq) : t.rows.Spacious :=
  RowStore.spacious_of_mirrors h.mirrors (Nat.lt_of_le_of_lt h.lastSeq_le hn)

theorem Sound.reader_eq (h : t.Sound n) (hn : n < RowStore.maxSeq) : t.rows.reader = t.memory.reader := by
  rw [RowStore.reader_eq (h.spacious hn), MemoryStore.reader_eq, h.view_eq]

theorem Sound.readsAlike (h : t.Sound n) (hn : n < RowStore.maxSeq) : t.ReadsAlike := by
  have hreader := h.reader_eq hn
  constructor
  · rw [hreader]
  · intro seq
    rw [hreader]
  · intro σ k key seq visit state
    rw [hreader]
  · intro σ seq visit state
    rw [hreader]

/-- The look-up by id finds what a reader can see. -/
theorem Sound.holdsId_iff (h : t.Sound n) (hn : n < RowStore.maxSeq) {i : Id} :
    t.rows.holdsId i = true ↔ t.rows.reader.Holds i := by
  rw [RowStore.holdsId, List.any_eq_true, RowStore.holds_iff (h.spacious hn)]
  refine exists_congr fun b => and_congr_right fun hb => ?_
  -- the id column holds the id of the event that the row was made of
  obtain ⟨e, packed, text, hpacked, hrow⟩ := h.written b hb
  have hcell : b.2.id = .blob e.id.bytes := by rw [hrow, Row.ofEvent]
  rw [hcell, hrow, Row.stored_ofEvent hpacked, decide_eq_true_iff, Cell.blob.injEq, Id.bytes_inj]
  constructor
  · intro hid
    exact ⟨e, rfl, hid⟩
  · rintro ⟨e', he', hid⟩
    cases he'
    exact hid

/-! ### Insertions -/

/-- What an insertion comes to while row numbers are left. -/
theorem insert_cases (e : Event) (text : String) (hroom : t.rows.lastSeq < RowStore.maxSeq) :
    ((∃ tag ∈ e.tags, Tag.maxValueSize < tag.value.length) ∧
      ∃ cause, t.rows.insert e text = .error cause) ∨
    ((∀ tag ∈ e.tags, tag.value.length ≤ Tag.maxValueSize) ∧ t.rows.holdsId e.id = true ∧
      t.rows.insert e text = .ok (none, t.rows)) ∨
    ((∀ tag ∈ e.tags, tag.value.length ≤ Tag.maxValueSize) ∧ t.rows.holdsId e.id = false ∧
      ∃ packed rows, Row.packTags? e.tags = some packed ∧
        rows.rows = t.rows.rows.insert (t.rows.lastSeq + 1) (.ofEvent e packed text) ∧
        rows.lastSeq = t.rows.lastSeq + 1 ∧
        t.rows.insert e text = .ok (some (t.rows.lastSeq + 1), rows)) := by
  have hsmall : ∀ {packed}, Row.packTags? e.tags = some packed →
      ∀ tag ∈ e.tags, tag.value.length ≤ Tag.maxValueSize := by
    intro packed hpacked tag htag
    refine Nat.le_of_not_lt fun hlong => ?_
    rw [Row.packTags?_eq_none_iff.2 ⟨tag, htag, hlong⟩] at hpacked
    cases hpacked
  rw [RowStore.insert]
  cases hpacked : Row.packTags? e.tags with
  | none => exact .inl ⟨Row.packTags?_eq_none_iff.1 hpacked, _, rfl⟩
  | some packed =>
    cases hheld : t.rows.holdsId e.id with
    | true => exact .inr (.inl ⟨hsmall hpacked, rfl, rfl⟩)
    | false =>
      simp only [Bool.false_eq_true, if_false, if_neg (Nat.not_le.2 hroom)]
      exact .inr (.inr ⟨hsmall hpacked, trivial, packed, _, rfl, rfl, rfl, rfl⟩)

theorem Sound.insertsAlike (h : t.Sound n) (hn : n < RowStore.maxSeq) : t.InsertsAlike e text := by
  have hheld := h.holdsId_iff hn (i := e.id)
  have hlast : t.rows.lastSeq = t.memory.lastSeq := congrArg View.latestSeq h.view_eq
  have hfits : (∀ tag ∈ e.tags, tag.value.length ≤ Tag.maxValueSize) →
      ¬ ∃ tag ∈ e.tags, Tag.maxValueSize < tag.value.length :=
    fun hsmall ⟨tag, htag, hlong⟩ => Nat.not_le.2 hlong (hsmall tag htag)
  rcases insert_cases e text (Nat.lt_of_le_of_lt h.lastSeq_le hn) with
    ⟨hlong, cause, hins⟩ | ⟨hsmall, hdup, hins⟩ | ⟨hsmall, hnew, packed, rows, -, -, -, hins⟩
  · constructor
    · exact iff_of_true ⟨cause, hins⟩ hlong
    · exact iff_of_false (by simp [hins]) fun ⟨hsmall, _⟩ => hfits hsmall hlong
    · intro _
      simp only [step, hins]
    · simp [hins]
  · constructor
    · exact iff_of_false (by simp [hins]) (hfits hsmall)
    · exact iff_of_true ⟨_, hins⟩ ⟨hsmall, hheld.1 hdup⟩
    · intro _
      simp only [step, hins]
    · simp [hins]
  · constructor
    · exact iff_of_false (by simp [hins]) (hfits hsmall)
    · refine iff_of_false (by simp [hins]) fun ⟨_, hholds⟩ => ?_
      rw [hheld.2 hholds] at hnew
      cases hnew
    · intro hnone
      exact absurd hins (hnone _ _)
    · intro seq rows' hrows
      rw [hins] at hrows
      cases hrows
      exact congrArg (· + 1) hlast

/-! ### Histories -/

theorem sound_start : start.Sound 0 where
  view_eq := rfl
  mirrors := View.mirrors_empty
  written _ hb := absurd hb List.not_mem_nil
  lastSeq_le := Nat.le_refl _

theorem Sound.insert (h : t.Sound n) (hn : n < RowStore.maxSeq) :
    (t.step (.insert e text)).Sound (n + 1) := by
  rcases insert_cases e text (Nat.lt_of_le_of_lt h.lastSeq_le hn) with
    ⟨-, cause, hins⟩ | ⟨-, -, hins⟩ | ⟨-, -, packed, rows, hpacked, hrows, hlast, hins⟩
  · simp only [step, hins]
    exact h.mono (Nat.le_succ n)
  · simp only [step, hins]
    exact h.mono (Nat.le_succ n)
  · simp only [step, hins]
    have hview : rows.view = t.rows.view.insert e := by
      rcases RowStore.view_insert hins with ⟨hnone, -⟩ | ⟨-, hview⟩
      · cases hnone
      · exact hview
    constructor
    · rw [hview, h.view_eq, MemoryStore.view_insert]
    · rw [hview]
      exact h.mirrors.insert e
    · intro b hb
      rw [hrows] at hb
      rcases (SeqMap.mem_place t.rows.rows.descending).1 hb with rfl | ⟨hb, -⟩
      · exact ⟨e, packed, text, hpacked, rfl⟩
      · exact h.written b hb
    · rw [hlast]
      exact Nat.succ_le_succ h.lastSeq_le

/-- A condition on the row number deletes what the memory store deletes. -/
theorem Sound.delete (h : t.Sound n) (hn : n < RowStore.maxSeq) {seq : UInt64} :
    (t.rows.delete seq).1 = (t.memory.delete seq).1 ∧ (t.step (.delete seq)).Sound n := by
  have hstored : (t.rows.rows.get? seq.toNat).isSome = (t.memory.events.get? seq.toNat).isSome := by
    have hrow := congrArg (fun v => (v.rows.get? seq.toNat).isSome) h.view_eq
    simpa only [RowStore.view, MemoryStore.view, SeqMap.get?_map, Option.isSome_map] using hrow
  have hsome : (t.rows.delete? seq.toNat).isSome = (t.memory.delete? seq.toNat).isSome := by
    rw [RowStore.delete?, MemoryStore.delete?, Option.isSome_map, Option.isSome_map, hstored]
  rw [step, RowStore.delete_eq (h.spacious hn) h.mirrors, MemoryStore.delete]
  cases hrows : t.rows.delete? seq.toNat with
  | none =>
    rw [hrows, Option.isSome_none, eq_comm, Option.isSome_eq_false_iff, Option.isNone_iff_eq_none] at hsome
    rw [hsome]
    exact ⟨rfl, h⟩
  | some rows =>
    rw [hrows, Option.isSome_some, eq_comm, Option.isSome_iff_exists] at hsome
    obtain ⟨memory, hmemory⟩ := hsome
    rw [hmemory]
    refine ⟨rfl, ?_⟩
    -- the views agree, so what is deleted of one is deleted of the other
    have hview : rows.view = t.rows.view.delete seq.toNat := RowStore.view_delete? hrows
    have hmirrors : t.memory.view.Mirrors := h.view_eq ▸ h.mirrors
    obtain ⟨row, -, rfl⟩ := Option.map_eq_some_iff.1 hrows
    constructor
    · show RowStore.view _ = memory.view
      rw [Option.getD_some, hview, h.view_eq, MemoryStore.view_delete? hmirrors hmemory]
    · show (RowStore.view _).Mirrors
      rw [Option.getD_some, hview]
      exact h.mirrors.delete _
    · exact fun b hb => h.written b (List.mem_filter.1 hb).1
    · exact h.lastSeq_le

theorem Sound.reopen (h : t.Sound n) : (t.step .reopen).Sound n := by
  rw [step, RowStore.reopen_eq]
  exact h

/-- A history with room for all its insertions. -/
theorem sound_run {ops : List Operation} (h : Operation.inserts ops < RowStore.maxSeq) :
    (run ops).Sound (Operation.inserts ops) := by
  -- from the end: an insertion is the only operation that may use up a row number
  induction ops using List.reverseRecOn with
  | nil => exact sound_start
  | append_singleton ops op ih =>
    rw [Operation.inserts, List.countP_append] at h
    have hn : Operation.inserts ops < RowStore.maxSeq := Nat.lt_of_le_of_lt (Nat.le_add_right _ _) h
    rw [run, List.foldl_append, Operation.inserts, List.countP_append]
    cases op with
    | insert e text => exact (ih hn).insert hn
    | delete seq => exact ((ih hn).delete hn).2
    | reopen => exact (ih hn).reopen

/-- **A table store is a memory store to every reader.**  Along a history with fewer insertions than there
are row numbers, the table store refuses just the events with a tag value that is too long and takes
just those for duplicates whose id it holds; both stores give the same seqs, delete the same, and answer
every read alike, whatever its bound and its visitor. -/
theorem indistinguishable {ops : List Operation} (h : Operation.inserts ops < RowStore.maxSeq) :
    (∀ before e text, before ++ [.insert e text] <+: ops → (run before).InsertsAlike e text) ∧
    (∀ before seq, before ++ [.delete seq] <+: ops →
      ((run before).rows.delete seq).1 = ((run before).memory.delete seq).1) ∧
    ∀ before, before <+: ops → (run before).ReadsAlike := by
  have hbefore : ∀ {before}, before <+: ops → Operation.inserts before < RowStore.maxSeq := by
    intro before hle
    exact Nat.lt_of_le_of_lt (hle.sublist.countP_le) h
  refine ⟨fun before e text hle => ?_, fun before seq hle => ?_, fun before hle => ?_⟩
  · have hn := hbefore ((List.prefix_append _ _).trans hle)
    exact (sound_run hn).insertsAlike hn
  · have hn := hbefore ((List.prefix_append _ _).trans hle)
    exact ((sound_run hn).delete hn).1
  · have hn := hbefore hle
    exact (sound_run hn).readsAlike hn

/-- An event with a tag that it has twice, a duplicate, an event with a value that is too long, a deletion
above all row numbers and one of the first event. -/
def fiveOperations : List Operation :=
  let i : Id := ⟨List.replicate 32 0, rfl⟩
  [.insert ⟨i, i, 10, 1, none, [⟨0x74, [1]⟩, ⟨0x74, [1]⟩]⟩ "",
   .insert ⟨i, i, 20, 1, none, []⟩ "",
   .insert ⟨i, i, 30, 1, none, [⟨0x74, List.replicate 256 0⟩]⟩ "",
   .delete 0xFFFFFFFFFFFFFFFF,
   .delete 1]

theorem indistinguishable_fiveOperations :
    Operation.inserts fiveOperations < RowStore.maxSeq ∧
    ((run (fiveOperations.take 4)).rows.delete 1).1 = true ∧
    (run fiveOperations).rows.reader.event? 1 = none := by
  have hroom : Operation.inserts fiveOperations < RowStore.maxSeq := by decide
  obtain ⟨-, hdelete, hreads⟩ := indistinguishable hroom
  refine ⟨hroom, ?_, ?_⟩
  · rw [hdelete (fiveOperations.take 4) 1 (List.prefix_refl _)]
    decide +kernel
  · rw [(hreads fiveOperations (List.prefix_refl _)).event?_eq]
    decide +kernel

end Twins

end EventRelay
