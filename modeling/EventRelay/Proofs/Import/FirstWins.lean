import Mathlib.Data.List.Induction
import EventRelay.Import
import EventRelay.Proofs.Event.RoundTrip
import EventRelay.Proofs.Store.Containment
import EventRelay.Proofs.Store.Packing
/-!
# What an import stores

Of the lines that write an event of one id, an import stores the first, and none if the store has an
event of that id.  It keeps the lines it stores as they are and gives them the next seqs, in the order
of the lines.  Nothing else changes the store: neither a line that is rejected nor a duplicate uses a
seq.  So the same text, imported again, is all duplicates, but for the lines that are rejected again.

The specification looks at the text as a whole and knows nothing of stores that change: the lines that
are not blank, those of them that write an event, and of these the first of each id.

Main statements: `Import.fed` (what one line does), `Import.Sofar.feed` (what a line does to all that has
been said and done so far) and `Import.first_wins`.
-/

namespace EventRelay

/-- An event, with the text that writes it. -/
structure Posting where
  event : Event
  text : String

/-- The row of an event, packed, with its text. -/
def Posting.row (p : Posting) : Row := .ofEvent p.event (p.event.tags.flatMap Tag.packed) p.text

/-- Whatever a text writes as an event has tags that can be packed. -/
theorem Event.fits_of_ofText {text : String} {e : Event} (h : Event.ofText text = .ok e) :
    ∀ t ∈ e.tags, t.Fits := by
  have hread : e.FromJson := by
    rw [ofText] at h
    split at h
    · cases h
    · rename_i v _
      split at h
      · cases h
      · rename_i hv
        cases h
        exact ⟨v, hv⟩
  intro t ht
  have hwritable := fromJson_iff.1 hread t ht
  cases hid : Tag.holdsId t.name with
  | true => exact Nat.le_trans (Nat.le_of_eq (hwritable.value_id hid)) (by decide)
  | false => exact (hwritable.value_text hid).2.2

/-- No text is refused because a store is full. -/
theorem Event.ofText_ne_full {text : String} : Event.ofText text ≠ .error (.insert .full) := by
  rw [ofText]
  split
  · nofun
  · split <;> nofun

/-! ### Stores that grow -/

namespace RowStore

variable {s : RowStore} {p : Posting} {ps : List Posting}

/-- The store once an event has been stored under the next seq. -/
def append (s : RowStore) (p : Posting) : RowStore where
  lastSeq := s.lastSeq + 1
  rows := s.rows.insert (s.lastSeq + 1) p.row
  indices := s.indices.add (s.lastSeq + 1) p.event.indexEntries

/-- What an insertion comes to whose tags can be packed. -/
theorem insert_eq {e : Event} {text : String} (h : ∀ t ∈ e.tags, t.Fits) :
    s.insert e text =
      if s.holdsId e.id then .ok (none, s)
      else if maxSeq ≤ s.lastSeq then .error .full
      else .ok (some (s.lastSeq + 1), s.append ⟨e, text⟩) := by
  have hpacked : Row.packTags? e.tags = some (e.tags.flatMap Tag.packed) :=
    Row.packTags?_eq_some_iff.2 ⟨h, rfl⟩
  rw [insert, hpacked]
  rfl

theorem Counted.append (hs : s.Counted) (hroom : s.lastSeq < maxSeq) : (s.append p).Counted := by
  refine ⟨fun b hb => ?_, Nat.succ_le_of_lt hroom⟩
  rcases (SeqMap.mem_place s.rows.descending).1 hb with rfl | ⟨hb, -⟩
  · exact Nat.le_refl _
  · exact Nat.le_succ_of_le (hs.row_le b hb)

/-- A new row hides none of the ids that are held. -/
theorem holdsId_append (hs : s.Counted) {i : Id} :
    (s.append p).holdsId i = (s.holdsId i || decide (p.event.id = i)) := by
  rw [Bool.eq_iff_iff, Bool.or_eq_true, decide_eq_true_iff, holdsId, holdsId, List.any_eq_true,
    List.any_eq_true]
  have hmem : ∀ b, b ∈ (s.append p).rows.entries ↔ b = (s.lastSeq + 1, p.row) ∨ b ∈ s.rows.entries := by
    intro b
    refine (SeqMap.mem_place s.rows.descending).trans (or_congr_right (and_iff_left_of_imp fun hb => ?_))
    exact Nat.ne_of_lt (Nat.lt_succ_of_le (hs.row_le b hb))
  have hrow : p.row.id = .blob i.bytes ↔ p.event.id = i := by
    rw [Posting.row, Row.ofEvent, Cell.blob.injEq, Id.bytes_inj]
  simp only [hmem, decide_eq_true_eq, or_and_right, exists_or, exists_eq_left, hrow]
  exact or_comm

theorem lastSeq_foldl_append : (ps.foldl append s).lastSeq = s.lastSeq + ps.length := by
  induction ps generalizing s with
  | nil => rfl
  | cons p rest ih =>
    have hseq : (s.append p).lastSeq = s.lastSeq + 1 := rfl
    rw [List.foldl_cons, ih, List.length_cons, hseq]
    omega

/-- The rows of a store that has grown: the new ones stand behind the old ones, in order. -/
theorem get?_foldl_append {n : Nat} : (ps.foldl append s).rows.get? n =
    if s.lastSeq < n ∧ n ≤ s.lastSeq + ps.length then (ps[n - (s.lastSeq + 1)]?).map Posting.row
    else s.rows.get? n := by
  induction ps generalizing s with
  | nil =>
    rw [List.foldl_nil, if_neg]
    rw [List.length_nil]
    omega
  | cons p rest ih =>
    rw [List.foldl_cons, ih]
    simp only [append, SeqMap.get?_insert, List.length_cons]
    by_cases hfirst : n = s.lastSeq + 1
    · rw [if_neg (by omega), if_pos hfirst, if_pos (by omega), hfirst, Nat.sub_self]
      rfl
    · by_cases hlater : s.lastSeq + 1 < n ∧ n ≤ s.lastSeq + (rest.length + 1)
      · have hat : n - (s.lastSeq + 1) = n - (s.lastSeq + 1 + 1) + 1 := by omega
        rw [if_pos (by omega), if_pos (by omega), hat, List.getElem?_cons_succ]
      · rw [if_neg (by omega), if_neg hfirst, if_neg (by omega)]

/-- The entries of a store that has grown: the old ones, and those of the new events under their seqs. -/
theorem mem_get_foldl_append {k : IndexKind} {x : Entry} : x ∈ (ps.foldl append s).indices.get k ↔
    x ∈ s.indices.get k ∨ ∃ n p, ps[n]? = some p ∧ x.seq = s.lastSeq + 1 + n
      ∧ (k, x.key) ∈ p.event.indexEntries := by
  induction ps generalizing s with
  | nil => simp
  | cons p rest ih =>
    rw [List.foldl_cons, ih, append]
    simp only [Indices.mem_get_add]
    constructor
    · rintro ((hold | ⟨hseq, hkey⟩) | ⟨n, q, hq, hseq, hkey⟩)
      · exact .inl hold
      · exact .inr ⟨0, p, rfl, hseq, hkey⟩
      · exact .inr ⟨n + 1, q, hq, by omega, hkey⟩
    · rintro (hold | ⟨n, q, hq, hseq, hkey⟩)
      · exact .inl (.inl hold)
      · cases n with
        | zero =>
          cases hq
          exact .inl (.inr ⟨hseq, hkey⟩)
        | succ n => exact .inr ⟨n, q, hq, by omega, hkey⟩

end RowStore

/-- Behind a list, an item occurs first if none like it has occurred. -/
theorem eraseDupsBy_concat {α β : Type} [DecidableEq β] {f : α → β} {l : List α} {a : α} :
    (l ++ [a]).eraseDupsBy (fun x y => decide (f x = f y)) =
      l.eraseDupsBy (fun x y => decide (f x = f y)) ++ if l.any fun x => f x = f a then [] else [a] := by
  induction h : l.length using Nat.strongRecOn generalizing l with
  | ind n ih =>
    cases l with
    | nil => rfl
    | cons b l =>
      have hle := List.length_filter_le (fun x => !decide (f x = f b)) l
      have hlen : l.length < n := by rw [← h, List.length_cons]; omega
      have ih := ih _ (Nat.lt_of_le_of_lt hle hlen) rfl
      simp only [List.cons_append, List.eraseDupsBy_cons, List.filter_append, List.any_cons]
      by_cases hab : f a = f b
      · simp [hab]
      · have hany : (l.filter fun x => !decide (f x = f b)).any (fun x => decide (f x = f a))
            = l.any fun x => decide (f x = f a) := by
          rw [List.any_filter]
          congr 1
          funext x
          by_cases hx : f x = f a
          · simp [hx, hab]
          · simp [hx]
        simpa [hab, Ne.symm hab, hany] using ih

namespace Import

/-! ### The text as a whole -/

/-- A line of an import without the white space around it. -/
structure Line where
  number : Nat
  text : String

/-- The lines that are not blank. -/
def written (lines : List String) : List Line :=
  (lines.zipIdx 1).filterMap fun l =>
    if (Text.trim l.1).isEmpty then none else some ⟨l.2, Text.trim l.1⟩

/-- What a line is accepted as. -/
def Line.posting? (l : Line) : Option Posting :=
  match Event.ofText l.text with
  | .ok e => some ⟨e, l.text⟩
  | .error _ => none

/-- Why a line is rejected. -/
def Line.rejection? (l : Line) : Option Rejection :=
  match Event.ofText l.text with
  | .ok _ => none
  | .error cause => some ⟨l.number, cause⟩

def accepted (lines : List String) : List Posting := (written lines).filterMap Line.posting?

def refused (lines : List String) : List Rejection := (written lines).filterMap Line.rejection?

/-- The first event of each id that the store does not have. -/
def firsts (s : RowStore) (ps : List Posting) : List Posting :=
  (ps.filter fun p => !s.holdsId p.event.id).eraseDupsBy fun p q => decide (p.event.id = q.event.id)

variable {s : RowStore} {lines : List String} {line : String}

theorem written_concat : written (lines ++ [line]) =
    written lines ++ if (Text.trim line).isEmpty then [] else [⟨lines.length + 1, Text.trim line⟩] := by
  have hlast : [line].zipIdx (1 + lines.length) = [(line, lines.length + 1)] := by
    rw [Nat.add_comm]
    rfl
  rw [written, List.zipIdx_append, List.filterMap_append, hlast, written]
  cases hblank : (Text.trim line).isEmpty <;> simp only [List.filterMap_cons, hblank] <;> rfl

theorem written_of_blank (h : (Text.trim line).isEmpty = true) : written (lines ++ [line]) = written lines := by
  rw [written_concat, if_pos h, List.append_nil]

theorem written_of_text (h : (Text.trim line).isEmpty = false) :
    written (lines ++ [line]) = written lines ++ [⟨lines.length + 1, Text.trim line⟩] := by
  rw [written_concat, h, if_neg Bool.false_ne_true]

/-- A line that writes an event is accepted and not refused. -/
theorem concat_of_ok (lines : List String) {e : Event} (h : (Text.trim line).isEmpty = false)
    (hread : Event.ofText (Text.trim line) = .ok e) :
    accepted (lines ++ [line]) = accepted lines ++ [⟨e, Text.trim line⟩]
      ∧ refused (lines ++ [line]) = refused lines := by
  simp [accepted, refused, written_of_text h, Line.posting?, Line.rejection?, hread]

/-- A line that writes none is refused and not accepted. -/
theorem concat_of_error (lines : List String) {cause : TextError}
    (h : (Text.trim line).isEmpty = false)
    (hread : Event.ofText (Text.trim line) = .error cause) :
    accepted (lines ++ [line]) = accepted lines
      ∧ refused (lines ++ [line]) = refused lines ++ [⟨lines.length + 1, cause⟩] := by
  simp [accepted, refused, written_of_text h, Line.posting?, Line.rejection?, hread]

theorem firsts_concat {ps : List Posting} {p : Posting} : firsts s (ps ++ [p]) =
    firsts s ps ++ if s.holdsId p.event.id || ps.any (fun q => q.event.id = p.event.id) then [] else [p] := by
  rw [firsts, List.filter_append]
  cases hheld : s.holdsId p.event.id with
  | true => simp [firsts, hheld]
  | false =>
    have hany : (ps.filter fun q => !s.holdsId q.event.id).any (fun q => decide (q.event.id = p.event.id))
        = ps.any fun q => decide (q.event.id = p.event.id) := by
      rw [List.any_filter]
      congr 1
      funext q
      by_cases hq : q.event.id = p.event.id
      · simp [hq, hheld]
      · simp [hq]
    have hsingle : [p].filter (fun q => !s.holdsId q.event.id) = [p] := by simp [hheld]
    rw [hsingle, eraseDupsBy_concat (f := fun q : Posting => q.event.id), hany, firsts, Bool.false_or]

/-! ### One line -/

/-- What a line does to an import that has not stopped. -/
inductive Fed (i : Import) (text : String) : Import → Prop
  | blank : text.isEmpty = true → Fed i text { i with lines := i.lines + 1 }
  | rejected {cause} : text.isEmpty = false → Event.ofText text = .error cause →
      Fed i text { i with lines := i.lines + 1, rejections := ⟨i.lines + 1, cause⟩ :: i.rejections }
  | duplicate {e} : text.isEmpty = false → Event.ofText text = .ok e → i.store.holdsId e.id = true →
      Fed i text { i with lines := i.lines + 1, duplicates := i.duplicates + 1 }
  | added {e} : text.isEmpty = false → Event.ofText text = .ok e → i.store.holdsId e.id = false →
      i.store.lastSeq < RowStore.maxSeq →
      Fed i text { i with lines := i.lines + 1, store := i.store.append ⟨e, text⟩, added := i.added + 1 }
  | full {e} : text.isEmpty = false → Event.ofText text = .ok e → i.store.holdsId e.id = false →
      RowStore.maxSeq ≤ i.store.lastSeq →
      Fed i text { i with lines := i.lines + 1, stopped := true }

theorem feed_of_blank {i : Import} (h : i.stopped = false) (hblank : (Text.trim line).isEmpty = true) :
    i.feed line = { i with lines := i.lines + 1 } := by
  simp only [feed, h, hblank, if_true, if_neg Bool.false_ne_true]

theorem feed_of_text {i : Import} (h : i.stopped = false) (htext : (Text.trim line).isEmpty = false) :
    i.feed line = ({ i with lines := i.lines + 1 } : Import).feedText (Text.trim line) := by
  simp only [feed, h, htext, if_neg Bool.false_ne_true]

theorem fed {i : Import} (h : i.stopped = false) (line : String) : Fed i (Text.trim line) (i.feed line) := by
  cases htext : (Text.trim line).isEmpty with
  | true =>
    rw [feed_of_blank h htext]
    exact .blank htext
  | false =>
    rw [feed_of_text h htext, feedText, RowStore.insertText]
    cases hread : Event.ofText (Text.trim line) with
    | error cause =>
      have hfed : Fed i (Text.trim line) _ := .rejected htext hread
      cases cause with
      | notJson => exact hfed
      | insert cause =>
        cases cause with
        | event cause => exact hfed
        | full => exact absurd hread Event.ofText_ne_full
    | ok e =>
      simp only [RowStore.insert_eq (Event.fits_of_ofText hread)]
      cases hheld : i.store.holdsId e.id with
      | true => exact .duplicate htext hread hheld
      | false =>
        by_cases hfull : RowStore.maxSeq ≤ i.store.lastSeq
        · simp only [if_neg Bool.false_ne_true, if_pos hfull]
          exact .full htext hread hheld hfull
        · simp only [if_neg Bool.false_ne_true, if_neg hfull]
          exact .added htext hread hheld (Nat.lt_of_not_le hfull)

/-! ### Line after line -/

/-- What an import that began with the store `s` has said and done after `lines`. -/
structure Sofar (s : RowStore) (lines : List String) (i : Import) : Prop where
  counted : i.store.Counted
  lines_eq : i.lines = lines.length
  store_eq : i.store = (firsts s (accepted lines)).foldl RowStore.append s
  holdsId_eq : ∀ x, i.store.holdsId x = (s.holdsId x || (accepted lines).any fun p => p.event.id = x)
  added_eq : i.added = (firsts s (accepted lines)).length
  duplicates_eq : i.added + i.duplicates = (accepted lines).length
  rejections_eq : i.rejections.reverse = refused lines

theorem sofar_start (hs : s.Counted) : Sofar s [] (start s) :=
  ⟨hs, rfl, rfl, fun _ => (Bool.or_false _).symm, rfl, rfl, rfl⟩

theorem Sofar.feed {i j : Import} (h : Sofar s lines i) (hfed : Fed i (Text.trim line) j)
    (hgo : j.stopped = false) : Sofar s (lines ++ [line]) j := by
  have hlines : i.lines + 1 = (lines ++ [line]).length := by
    rw [List.length_append, List.length_singleton, h.lines_eq]
  cases hfed with
  | blank hblank =>
    have haccepted : accepted (lines ++ [line]) = accepted lines := by
      rw [accepted, written_of_blank hblank, accepted]
    have hrefused : refused (lines ++ [line]) = refused lines := by
      rw [refused, written_of_blank hblank, refused]
    exact ⟨h.counted, hlines, haccepted ▸ h.store_eq, haccepted ▸ h.holdsId_eq, haccepted ▸ h.added_eq,
      haccepted ▸ h.duplicates_eq, hrefused ▸ h.rejections_eq⟩
  | @rejected cause htext hread =>
    obtain ⟨haccepted, hrefused⟩ := concat_of_error lines htext hread
    refine ⟨h.counted, hlines, haccepted ▸ h.store_eq, haccepted ▸ h.holdsId_eq, haccepted ▸ h.added_eq,
      haccepted ▸ h.duplicates_eq, ?_⟩
    rw [hrefused, List.reverse_cons, h.rejections_eq, h.lines_eq]
  | @duplicate e htext hread hheld =>
    obtain ⟨haccepted, hrefused⟩ := concat_of_ok lines htext hread
    -- an event of the id was stored before, or one of the earlier lines has written one
    have hseen := (h.holdsId_eq e.id).symm.trans hheld
    have hfirsts : firsts s (accepted (lines ++ [line])) = firsts s (accepted lines) := by
      rw [haccepted, firsts_concat, hseen, if_pos rfl, List.append_nil]
    refine ⟨h.counted, hlines, hfirsts ▸ h.store_eq, fun x => ?_, hfirsts ▸ h.added_eq, ?_,
      hrefused ▸ h.rejections_eq⟩
    · show i.store.holdsId x = _
      rw [haccepted, List.any_append, ← Bool.or_assoc, ← h.holdsId_eq]
      by_cases hx : e.id = x
      · simp [← hx, hheld]
      · simp [hx]
    · rw [haccepted, List.length_append, List.length_singleton, ← h.duplicates_eq]
      rfl
  | @added e htext hread hfresh hroom =>
    obtain ⟨haccepted, hrefused⟩ := concat_of_ok lines htext hread
    have hunseen := (h.holdsId_eq e.id).symm.trans hfresh
    have hfirsts : firsts s (accepted (lines ++ [line]))
        = firsts s (accepted lines) ++ [⟨e, Text.trim line⟩] := by
      rw [haccepted, firsts_concat, hunseen, if_neg Bool.false_ne_true]
    refine ⟨h.counted.append hroom, hlines, ?_, fun x => ?_, ?_, ?_, hrefused ▸ h.rejections_eq⟩
    · rw [hfirsts, List.foldl_append, ← h.store_eq]
      rfl
    · rw [RowStore.holdsId_append h.counted, h.holdsId_eq, haccepted, List.any_append, Bool.or_assoc,
        List.any_cons, List.any_nil, Bool.or_false]
    · rw [hfirsts, List.length_append, List.length_singleton, h.added_eq]
    · rw [haccepted, List.length_append, List.length_singleton, ← h.duplicates_eq]
      exact Nat.add_right_comm _ _ _
  | full => cases hgo

theorem stopped_foldl {i : Import} (h : i.stopped = true) : lines.foldl feed i = i := by
  induction lines with
  | nil => rfl
  | cons line rest ih => rw [List.foldl_cons, feed_stopped h, ih]

/-- An import that has not stopped at the end has not stopped before. -/
theorem stopped_prefix {i : Import} {more : List String} (h : ((lines ++ more).foldl feed i).stopped = false) :
    (lines.foldl feed i).stopped = false := by
  cases hstopped : (lines.foldl feed i).stopped with
  | false => rfl
  | true =>
    rw [List.foldl_append, stopped_foldl hstopped, hstopped] at h
    cases h

theorem sofar (hs : s.Counted) (h : (lines.foldl Import.feed (start s)).stopped = false) :
    Sofar s lines (lines.foldl Import.feed (start s)) := by
  induction lines using List.reverseRecOn with
  | nil => exact sofar_start hs
  | append_singleton lines line ih =>
    have hbefore := stopped_prefix h
    rw [List.foldl_append] at h ⊢
    exact (ih hbefore).feed (fed hbefore line) h

theorem length_written_le : (written lines).length ≤ lines.length := by
  have h := List.length_filterMap_le (fun l : String × Nat =>
    if (Text.trim l.1).isEmpty then none else some (⟨l.2, Text.trim l.1⟩ : Line)) (lines.zipIdx 1)
  rwa [List.length_zipIdx] at h

/-- At most one event is added for each line. -/
theorem Sofar.added_le {i : Import} (h : Sofar s lines i) : i.added ≤ lines.length :=
  calc
    i.added ≤ i.added + i.duplicates := Nat.le_add_right _ _
    _ = (accepted lines).length := h.duplicates_eq
    _ ≤ (written lines).length := List.length_filterMap_le _ _
    _ ≤ lines.length := length_written_le

theorem Sofar.lastSeq_eq {i : Import} (h : Sofar s lines i) :
    i.store.lastSeq = s.lastSeq + (firsts s (accepted lines)).length := by
  rw [h.store_eq, RowStore.lastSeq_foldl_append]

/-- An import does not stop while there is a seq for every line. -/
theorem stopped_of_room (hs : s.Counted) (h : s.lastSeq + lines.length ≤ RowStore.maxSeq) :
    (lines.foldl Import.feed (start s)).stopped = false := by
  induction lines using List.reverseRecOn with
  | nil => rfl
  | append_singleton lines line ih =>
    rw [List.length_append, List.length_singleton] at h
    have hbefore := ih (by omega)
    have hsofar := sofar hs hbefore
    have hfew : (firsts s (accepted lines)).length ≤ lines.length := by
      rw [← hsofar.added_eq]
      exact hsofar.added_le
    have hroom : (lines.foldl Import.feed (start s)).store.lastSeq < RowStore.maxSeq := by
      rw [hsofar.lastSeq_eq]
      omega
    have hfed := fed hbefore line
    rw [List.foldl_append, List.foldl_cons, List.foldl_nil]
    revert hfed
    generalize (lines.foldl Import.feed (start s)).feed line = j
    intro hfed
    cases hfed with
    | blank | rejected | duplicate | added => exact hbefore
    | full _ _ _ hfull => exact absurd hroom (Nat.not_lt.2 hfull)

/-! ### The whole text -/

theorem ofText_of_mem_accepted {p : Posting} (h : p ∈ accepted lines) : Event.ofText p.text = .ok p.event := by
  obtain ⟨l, -, hl⟩ := List.mem_filterMap.1 h
  rw [Line.posting?] at hl
  split at hl
  · rename_i e hread
    cases hl
    exact hread
  · cases hl

theorem firsts_subset {ps : List Posting} : firsts s ps ⊆ ps := by
  induction ps using List.reverseRecOn with
  | nil => exact List.Subset.refl _
  | append_singleton ps p ih =>
    intro q hq
    rw [firsts_concat, List.mem_append] at hq
    rcases hq with hq | hq
    · exact List.mem_append_left _ (ih hq)
    · split at hq
      · cases hq
      · exact List.mem_append_right _ hq

/-- Every line that is not blank is either accepted or refused. -/
theorem length_accepted_add_refused : (accepted lines).length + (refused lines).length = (written lines).length := by
  rw [accepted, refused]
  induction written lines with
  | nil => rfl
  | cons l rest ih =>
    have hl : (∃ p, l.posting? = some p ∧ l.rejection? = none)
        ∨ ∃ r, l.posting? = none ∧ l.rejection? = some r := by
      rw [Line.posting?, Line.rejection?]
      cases Event.ofText l.text with
      | ok e => exact .inl ⟨_, rfl, rfl⟩
      | error cause => exact .inr ⟨_, rfl, rfl⟩
    rw [List.filterMap_cons, List.filterMap_cons, List.length_cons, ← ih]
    rcases hl with ⟨p, hp, hr⟩ | ⟨r, hp, hr⟩
    · simp only [hp, hr, List.length_cons]
      omega
    · simp only [hp, hr, List.length_cons]
      omega

/-- Whether a line was counted once, and changed the store only if an event was added. -/
def Tallied (i j : Import) : Prop :=
  (j.added = i.added + 1 ∧ j.duplicates = i.duplicates ∧ j.rejected = i.rejected)
  ∨ (j.added = i.added ∧ j.duplicates = i.duplicates + 1 ∧ j.rejected = i.rejected ∧ j.store = i.store)
  ∨ (j.added = i.added ∧ j.duplicates = i.duplicates ∧ j.rejected = i.rejected + 1 ∧ j.store = i.store)

theorem Fed.tallied {i j : Import} {text : String} (h : Fed i text j) (htext : text.isEmpty = false)
    (hgo : j.stopped = false) : Tallied i j := by
  cases h with
  | blank hblank =>
    rw [hblank] at htext
    cases htext
  | rejected => exact .inr (.inr ⟨rfl, rfl, rfl, rfl⟩)
  | duplicate => exact .inr (.inl ⟨rfl, rfl, rfl, rfl⟩)
  | added => exact .inl ⟨rfl, rfl, rfl⟩
  | full => cases hgo

/-- What an import of `lines` into the store `s` has come to that has not stopped. -/
structure Imported (s : RowStore) (lines : List String) (i : Import) : Prop where
  lastSeq_eq : i.store.lastSeq = s.lastSeq + (firsts s (accepted lines)).length
  /-- The old rows are as they were, and behind them stand the first events, in order. -/
  row_eq : ∀ n, i.store.rows.get? n =
    if n ≤ s.lastSeq then s.rows.get? n
    else ((firsts s (accepted lines))[n - (s.lastSeq + 1)]?).map Posting.row
  entry_iff : ∀ {k : IndexKind} {x : Entry}, x ∈ i.store.indices.get k ↔
    x ∈ s.indices.get k ∨ ∃ n p, (firsts s (accepted lines))[n]? = some p
      ∧ x.seq = s.lastSeq + 1 + n ∧ (k, x.key) ∈ p.event.indexEntries
  /-- A new row is read as the event of its line, and its text is the line. -/
  read_eq : ∀ {n : Nat} {p : Posting}, (firsts s (accepted lines))[n]? = some p →
    i.store.view.event? (s.lastSeq + 1 + n) = some p.event
      ∧ i.store.text? (s.lastSeq + 1 + n) = some p.text
  added_eq : i.added = (firsts s (accepted lines)).length
  duplicates_eq : i.added + i.duplicates = (accepted lines).length
  rejections_eq : i.rejections.reverse = refused lines
  sum_eq : i.added + i.duplicates + i.rejected = (written lines).length
  tallied : ∀ {before after : List String} {line : String}, lines = before ++ line :: after →
    (Text.trim line).isEmpty = false →
      Tallied (before.foldl feed (start s)) ((before.foldl feed (start s)).feed line)

/-- What importing the lines again has come to. -/
structure Unchanged (i again : Import) : Prop where
  stopped_eq : again.stopped = false
  store_eq : again.store = i.store
  added_eq : again.added = 0
  rejections_eq : again.rejections = i.rejections
  duplicates_eq : again.duplicates = i.added + i.duplicates

theorem Sofar.row_eq {i : Import} (h : Sofar s lines i) (hs : s.Counted) (n : Nat) :
    i.store.rows.get? n =
      if n ≤ s.lastSeq then s.rows.get? n
      else ((firsts s (accepted lines))[n - (s.lastSeq + 1)]?).map Posting.row := by
  rw [h.store_eq, RowStore.get?_foldl_append]
  by_cases hold : n ≤ s.lastSeq
  · rw [if_neg (by omega), if_pos hold]
  · rw [if_neg hold]
    split
    · rfl
    · -- no row is beyond the last seq, before or after
      rename_i hbeyond
      rw [List.getElem?_eq_none (by omega), Option.map_none]
      cases hrow : s.rows.get? n with
      | none => rfl
      | some row => exact absurd (hs.row_le (n, row) (SeqMap.mem_entries_iff.2 hrow)) hold

theorem Sofar.imported (hs : s.Counted) (h : (lines.foldl Import.feed (start s)).stopped = false) :
    Imported s lines (lines.foldl Import.feed (start s)) := by
  have hsofar := sofar hs h
  refine ⟨?lastSeq, hsofar.row_eq hs, ?entry, ?read, hsofar.added_eq, hsofar.duplicates_eq,
    hsofar.rejections_eq, ?sum, ?tallied⟩
  case lastSeq => exact hsofar.lastSeq_eq
  case entry =>
    intro k x
    rw [hsofar.store_eq]
    exact RowStore.mem_get_foldl_append
  case read =>
    intro n p hp
    have hfits := Event.fits_of_ofText (ofText_of_mem_accepted (firsts_subset (List.mem_of_getElem? hp)))
    have hrow := hsofar.row_eq hs (s.lastSeq + 1 + n)
    rw [if_neg (by omega), Nat.add_sub_cancel_left, hp, Option.map_some] at hrow
    have hstored : p.row.stored = .event p.event :=
      Row.stored_ofEvent (Row.packTags?_eq_some_iff.2 ⟨hfits, rfl⟩)
    constructor
    · rw [View.event?, RowStore.view, SeqMap.get?_map, hrow, Option.map_some, hstored]
      rfl
    · rw [RowStore.text?, RowStore.json?, hrow]
      rfl
  case sum =>
    rw [hsofar.duplicates_eq, ← length_accepted_add_refused, ← hsofar.rejections_eq, List.length_reverse]
    rfl
  case tallied =>
    intro before after line hlines htext
    rw [hlines, List.append_cons] at h
    have hgo := stopped_prefix h
    have hbefore := stopped_prefix hgo
    rw [List.foldl_append] at hgo
    exact (fed hbefore line).tallied htext hgo

/-- Where every event that the lines write is stored already, an import of them stores nothing. -/
theorem store_foldl_of_held (h : ∀ p ∈ accepted lines, s.holdsId p.event.id = true) :
    (lines.foldl feed (start s)).stopped = false ∧ (lines.foldl feed (start s)).store = s := by
  induction lines using List.reverseRecOn with
  | nil => exact ⟨rfl, rfl⟩
  | append_singleton lines line ih =>
    have hsub : accepted lines ⊆ accepted (lines ++ [line]) := by
      intro p hp
      rw [accepted, written_concat, List.filterMap_append]
      exact List.mem_append_left _ hp
    obtain ⟨hgo, hstore⟩ := ih fun p hp => h p (hsub hp)
    have hfed := fed hgo line
    -- an event that is accepted is held
    have hheld : ∀ {e}, (Text.trim line).isEmpty = false → Event.ofText (Text.trim line) = .ok e →
        (lines.foldl feed (start s)).store.holdsId e.id = true := by
      intro e htext hread
      rw [hstore]
      apply h ⟨e, Text.trim line⟩
      rw [(concat_of_ok lines htext hread).1]
      exact List.mem_append_right _ (List.mem_singleton_self _)
    rw [List.foldl_append, List.foldl_cons, List.foldl_nil]
    revert hfed
    generalize (lines.foldl feed (start s)).feed line = j
    intro hfed
    cases hfed with
    | blank | rejected | duplicate => exact ⟨hgo, hstore⟩
    | added htext hread hfresh | full htext hread hfresh =>
      rw [hheld htext hread] at hfresh
      cases hfresh

/-- An import that meets no failure of the store keeps the first line of each id that is not stored, and
another one of the same text changes nothing. -/
theorem first_wins (hs : s.Counted) (text : String) (h : (run s text).stopped = false) :
    Imported s (Text.lines text) (run s text)
      ∧ Unchanged (run s text) (run (run s text).store text) := by
  have hsofar : Sofar s (Text.lines text) (run s text) := sofar hs h
  have hheld : ∀ p ∈ accepted (Text.lines text), (run s text).store.holdsId p.event.id = true := by
    intro p hp
    rw [hsofar.holdsId_eq, Bool.or_eq_true]
    exact .inr (List.any_eq_true.2 ⟨p, hp, decide_eq_true rfl⟩)
  obtain ⟨hgo, hstore⟩ := store_foldl_of_held hheld
  have hagain : Sofar (run s text).store (Text.lines text) (run (run s text).store text) :=
    sofar hsofar.counted hgo
  -- nothing is left that the store does not have
  have hnone : firsts (run s text).store (accepted (Text.lines text)) = [] := by
    have hfilter : (accepted (Text.lines text)).filter
        (fun p => !(run s text).store.holdsId p.event.id) = [] := by
      rw [List.filter_eq_nil_iff]
      intro p hp
      simp [hheld p hp]
    rw [firsts, hfilter]
    rfl
  have hadded : (run (run s text).store text).added = 0 := by rw [hagain.added_eq, hnone, List.length_nil]
  refine ⟨Sofar.imported hs h, hgo, hstore, hadded, ?_, ?_⟩
  · rw [← List.reverse_inj, hagain.rejections_eq, hsofar.rejections_eq]
  · rw [hsofar.duplicates_eq, ← hagain.duplicates_eq, hadded, Nat.zero_add]

/-- The text of a note, written with `1` and `2` for identifiers. -/
def noteChars : List Char :=
  "\x7b\"id\":\"".toList ++ List.replicate 64 '1' ++ "\",\"pubkey\":\"".toList ++ List.replicate 64 '2'
    ++ "\",\"created_at\":5,\"kind\":1,\"tags\":[]\x7d".toList

/-- The note, an empty line, a line that is no JSON, and the note again. -/
def sampleText : String := .ofList (noteChars ++ "\n\n x\n".toList ++ noteChars)

def sampleNote : Posting :=
  ⟨⟨⟨List.replicate 32 0x11, rfl⟩, ⟨List.replicate 32 0x22, rfl⟩, 5, 1, none, []⟩, .ofList noteChars⟩

theorem lines_sampleText : Text.lines sampleText = [sampleNote.text, "", " x", sampleNote.text] := by
  have hlines : Text.splitLines (noteChars ++ "\n\n x\n".toList ++ noteChars)
      = [noteChars, [], [' ', 'x'], noteChars] := by
    decide +kernel
  rw [Text.lines, sampleText, String.toList_ofList, hlines]
  rfl

theorem written_sampleText : written (Text.lines sampleText)
    = [⟨1, sampleNote.text⟩, ⟨3, "x"⟩, ⟨4, sampleNote.text⟩] := by
  have htrim : Text.trimChars noteChars = noteChars := by decide +kernel
  have hnote : Text.trim sampleNote.text = sampleNote.text := by
    rw [Text.trim, sampleNote, String.toList_ofList, htrim]
  have hnonempty : sampleNote.text.isEmpty = false := by
    rw [String.isEmpty_eq_false_iff, ne_eq, ← String.toList_eq_nil_iff, sampleNote, String.toList_ofList]
    decide +kernel
  have hempty : (Text.trim "").isEmpty = true := by decide +kernel
  have hx : Text.trim " x" = "x" := by decide +kernel
  have hxnonempty : "x".isEmpty = false := by decide +kernel
  -- for any text in the place of the note, so that the note is not unfolded
  have key : ∀ {text : String}, Text.trim text = text → text.isEmpty = false →
      written [text, "", " x", text] = [⟨1, text⟩, ⟨3, "x"⟩, ⟨4, text⟩] := by
    intro text hnote hnonempty
    simp only [written, List.zipIdx_cons, List.zipIdx_nil, List.filterMap_cons, List.filterMap_nil, hnote,
      hnonempty, hempty, hx, hxnonempty, Bool.false_eq_true, if_false, if_true]
  rw [lines_sampleText]
  exact key hnote hnonempty

theorem ofText_sampleNote : Event.ofText sampleNote.text = .ok sampleNote.event := by
  have hparse : Json.parse? sampleNote.text = Json.parse? (.ofList noteChars) := by rw [sampleNote]
  rw [Event.ofText, hparse, Json.parse?, Json.parseWithin?, String.toList_ofList]
  decide +kernel

theorem outcome_sampleText : accepted (Text.lines sampleText) = [sampleNote, sampleNote]
    ∧ refused (Text.lines sampleText) = [⟨3, .notJson⟩] := by
  have hx : Event.ofText "x" = .error .notJson := by decide +kernel
  have key : ∀ {text : String} {e : Event}, Event.ofText text = .ok e →
      [⟨1, text⟩, ⟨3, "x"⟩, ⟨4, text⟩].filterMap Line.posting? = [⟨e, text⟩, ⟨e, text⟩]
        ∧ [⟨1, text⟩, ⟨3, "x"⟩, ⟨4, text⟩].filterMap Line.rejection? = [⟨3, .notJson⟩] := by
    intro text e hread
    simp [Line.posting?, Line.rejection?, hread, hx]
  rw [accepted, refused, written_sampleText]
  exact key ofText_sampleNote

/-- The note is stored once, and the third line is rejected. -/
theorem first_wins_sampleText : RowStore.empty.Counted ∧ (run .empty sampleText).stopped = false
    ∧ Imported .empty (Text.lines sampleText) (run .empty sampleText)
    ∧ Unchanged (run .empty sampleText) (run (run .empty sampleText).store sampleText)
    ∧ (run .empty sampleText).added = 1 ∧ (run .empty sampleText).duplicates = 1
    ∧ (run .empty sampleText).rejections = [⟨3, .notJson⟩] := by
  have hgo : (run .empty sampleText).stopped = false := by
    rw [run]
    exact stopped_of_room RowStore.counted_empty (by rw [lines_sampleText]; decide)
  obtain ⟨himported, hunchanged⟩ := first_wins RowStore.counted_empty sampleText hgo
  obtain ⟨haccepted, hrefused⟩ := outcome_sampleText
  have hfirsts : firsts .empty (accepted (Text.lines sampleText)) = [sampleNote] := by
    rw [haccepted]
    rfl
  have hadded := himported.added_eq
  have hduplicates := himported.duplicates_eq
  have hrejections := himported.rejections_eq
  rw [hfirsts, List.length_singleton] at hadded
  rw [haccepted, hadded] at hduplicates
  rw [List.reverse_eq_iff, hrefused, List.reverse_singleton] at hrejections
  exact ⟨RowStore.counted_empty, hgo, himported, hunchanged, hadded, Nat.add_left_cancel hduplicates,
    hrejections⟩

end Import

end EventRelay
