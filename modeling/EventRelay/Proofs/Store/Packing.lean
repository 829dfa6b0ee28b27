import Mathlib.Algebra.Group.Nat.Defs
import EventRelay.Proofs.Store.RowCodec
import EventRelay.Store.Rows
/-!
# Packed tags and the rows they stand in

A byte string unpacks in one way or not at all.  It unpacks to tags exactly if those tags pack to it; any
other byte string is the packed form of some tags followed by the torn beginning of one more tag, and the
report says how much of that tag there is: a single byte, or a value that ends too soon.

Main statements: `Row.unpackTags_eq_ok_iff`, `Row.unpackTags_eq_error_iff` and, for the whole row,
`Row.codec_exact`.
-/

namespace EventRelay

/-- The bytes of a tag in packed tags: its name, the size of its value, and the value. -/
def Tag.packed (t : Tag) : Bytes := t.name :: UInt8.ofNat t.value.length :: t.value

/-- Whether the size of the value fits in the byte that is to hold it. -/
def Tag.Fits (t : Tag) : Prop := t.value.length ≤ 255

instance (t : Tag) : Decidable t.Fits := inferInstanceAs (Decidable (_ ≤ _))

namespace Row

variable {tags : List Tag} {packed s : Bytes} {why : Corruption}

/-! ### Packing -/

theorem packTags?_cons {t : Tag} (h : t.Fits) :
    packTags? (t :: tags) = (packTags? tags).map (t.packed ++ ·) := by
  rw [packTags?, if_pos (show t.value.length ≤ Tag.maxValueSize from h)]
  rfl

/-- Tags that fit pack to their bytes, one after the other. -/
theorem packTags?_eq_some_iff :
    packTags? tags = some packed ↔ (∀ t ∈ tags, t.Fits) ∧ packed = tags.flatMap Tag.packed := by
  induction tags generalizing packed with
  | nil => simp [packTags?, eq_comm]
  | cons t rest ih =>
    by_cases ht : t.Fits
    · simp only [packTags?_cons ht, Option.map_eq_some_iff, ih, List.forall_mem_cons, List.flatMap_cons]
      constructor
      · rintro ⟨tail, ⟨hrest, rfl⟩, rfl⟩
        exact ⟨⟨ht, hrest⟩, rfl⟩
      · rintro ⟨⟨-, hrest⟩, rfl⟩
        exact ⟨_, ⟨hrest, rfl⟩, rfl⟩
    · have hnone : packTags? (t :: rest) = none :=
        packTags?_eq_none_iff.2 ⟨t, List.mem_cons_self, Nat.lt_of_not_le ht⟩
      simp [hnone, ht]

/-! ### Unpacking -/

/-- The beginning of a packed tag that breaks off before its end, and the report of it. -/
inductive Torn : Bytes → Corruption → Prop
  | name (name : UInt8) : Torn [name] .trailingBytes
  | value (name size : UInt8) (rest : Bytes) (h : rest.length < size.toNat) :
      Torn (name :: size :: rest) .truncatedValue

/-- What begins a byte string is a packed tag, if all the bytes of its value are there. -/
theorem exists_packed (name : UInt8) {size : UInt8} {rest : Bytes} (h : size.toNat ≤ rest.length) :
    ∃ t : Tag, t.Fits ∧ name :: size :: rest = t.packed ++ rest.drop size.toNat := by
  have hlength : (rest.take size.toNat).length = size.toNat := List.length_take_of_le h
  refine ⟨⟨name, rest.take size.toNat⟩, ?_, ?_⟩
  · exact Nat.le_trans (Nat.le_of_eq hlength) (Nat.le_of_lt_succ size.toNat_lt)
  · simp [Tag.packed, hlength, List.take_append_drop]

/-- Unpacking takes one tag after the other. -/
theorem unpackTags_packed_append {t : Tag} (h : t.Fits) :
    unpackTags (t.packed ++ s) = (unpackTags s).map (t :: ·) := by
  have hsize : (UInt8.ofNat t.value.length).toNat = t.value.length :=
    UInt8.toNat_ofNat_of_lt' (Nat.lt_succ_of_le h)
  have hlong : ¬ (t.value ++ s).length < (UInt8.ofNat t.value.length).toNat := by
    simp [hsize]
  rw [show t.packed ++ s = t.name :: UInt8.ofNat t.value.length :: (t.value ++ s) from rfl,
    unpackTags, if_neg hlong, hsize, List.drop_left, List.take_left]
  cases unpackTags s <;> rfl

theorem unpackTags_flatMap_append (h : ∀ t ∈ tags, t.Fits) :
    unpackTags (tags.flatMap Tag.packed ++ s) = (unpackTags s).map (tags ++ ·) := by
  induction tags with
  | nil => cases hs : unpackTags s <;> simp [Except.map, hs]
  | cons t rest ih =>
    obtain ⟨ht, hrest⟩ := List.forall_mem_cons.1 h
    rw [List.flatMap_cons, List.append_assoc, unpackTags_packed_append ht, ih hrest]
    cases unpackTags s <;> rfl

theorem Torn.unpackTags (h : Torn s why) : unpackTags s = .error why := by
  cases h with
  | name name => rw [Row.unpackTags]
  | value name size rest h => rw [Row.unpackTags, if_pos h]

theorem Torn.unpackTags_append (h : Torn s why) (hfits : ∀ t ∈ tags, t.Fits) :
    Row.unpackTags (tags.flatMap Tag.packed ++ s) = .error why := by
  rw [unpackTags_flatMap_append hfits, h.unpackTags]
  rfl

/-- A byte string is packed tags, with nothing or with a torn tag behind them. -/
theorem packed_or_torn (s : Bytes) :
    ∃ tags : List Tag, (∀ t ∈ tags, t.Fits) ∧
      (s = tags.flatMap Tag.packed ∨ ∃ tail why, Torn tail why ∧ s = tags.flatMap Tag.packed ++ tail) := by
  induction s using unpackTags.induct with
  | case1 => exact ⟨[], by simp⟩
  | case2 name => exact ⟨[], by simp, .inr ⟨[name], _, .name name, rfl⟩⟩
  | case3 name size rest hshort => exact ⟨[], by simp, .inr ⟨_, _, .value name size rest hshort, rfl⟩⟩
  | case4 name size rest hlong tags hrest ih | case5 name size rest hlong why hrest ih =>
    obtain ⟨t, ht, hs⟩ := exists_packed name (Nat.le_of_not_lt hlong)
    obtain ⟨tags, htags, hpacked⟩ := ih
    refine ⟨t :: tags, List.forall_mem_cons.2 ⟨ht, htags⟩, ?_⟩
    rw [hs, List.flatMap_cons]
    refine hpacked.imp (congrArg (t.packed ++ ·)) ?_
    rintro ⟨tail, why, htorn, heq⟩
    exact ⟨tail, why, htorn, by rw [heq, List.append_assoc]⟩

/-- The byte strings that unpack are the packed forms of the tags they unpack to. -/
theorem unpackTags_eq_ok_iff : unpackTags s = .ok tags ↔ packTags? tags = some s := by
  refine ⟨fun h => ?_, unpackTags_of_packTags?⟩
  obtain ⟨found, hfits, rfl | ⟨tail, why, htorn, rfl⟩⟩ := packed_or_torn s
  · have hfound := packTags?_eq_some_iff.2 ⟨hfits, rfl⟩
    rw [unpackTags_of_packTags? hfound] at h
    cases h
    exact hfound
  · rw [htorn.unpackTags_append hfits] at h
    cases h

/-- The byte strings that do not unpack are packed tags and the torn beginning of one more. -/
theorem unpackTags_eq_error_iff :
    unpackTags s = .error why ↔
      ∃ tags packed tail, packTags? tags = some packed ∧ Torn tail why ∧ s = packed ++ tail := by
  constructor
  · intro h
    obtain ⟨tags, hfits, rfl | ⟨tail, why', htorn, rfl⟩⟩ := packed_or_torn s
    · rw [unpackTags_of_packTags? (packTags?_eq_some_iff.2 ⟨hfits, rfl⟩)] at h
      cases h
    · rw [htorn.unpackTags_append hfits] at h
      cases h
      exact ⟨tags, _, tail, packTags?_eq_some_iff.2 ⟨hfits, rfl⟩, htorn, rfl⟩
  · rintro ⟨tags, packed, tail, hpack, htorn, rfl⟩
    obtain ⟨hfits, rfl⟩ := packTags?_eq_some_iff.1 hpack
    exact htorn.unpackTags_append hfits

theorem Torn.message (h : Torn s why) :
    why.message = "truncated tag value" ∨ why.message = "trailing tag bytes" := by
  cases h with
  | name name => exact .inr rfl
  | value name size rest h => exact .inl rfl

/-! ### Rows -/

/-- A signed word is the two's complement of the word of its bits. -/
theorem toInt_signed (n : UInt64) : (signed n).toInt = (n.toNat : Int).bmod (2 ^ 64) := by
  show n.toBitVec.toInt = _
  exact BitVec.toInt_eq_toNat_bmod _

/-- The first value that is too long is the one whose size is reported. -/
theorem oversized?_eq_some_iff {n : Nat} :
    oversized? tags = some n ↔
      ∃ before t after, tags = before ++ t :: after ∧ (∀ b ∈ before, b.Fits) ∧ ¬ t.Fits ∧
        t.value.length = n := by
  have hfits : ∀ t : Tag, decide (Tag.maxValueSize < t.value.length) = !decide t.Fits :=
    fun t => (decide_eq_decide.2 Nat.not_le.symm).trans decide_not
  simp only [oversized?, Option.map_eq_some_iff, List.find?_eq_some_iff_append, hfits, Bool.not_not,
    Bool.not_eq_true', decide_eq_false_iff_not, decide_eq_true_iff]
  constructor
  · rintro ⟨t, ⟨hlong, before, after, htags, hbefore⟩, hn⟩
    exact ⟨before, t, after, htags, hbefore, hlong, hn⟩
  · rintro ⟨before, t, after, htags, hbefore, hlong, hn⟩
    exact ⟨t, ⟨hlong, before, after, htags, hbefore⟩, hn⟩

end Row

namespace RowStore

variable {s s' : RowStore} {e : Event} {json : String}

/-- An event that is stored stands in a row that is decoded to it. -/
theorem decode_of_insert {seq : Nat} (h : s.insert e json = .ok (some seq, s')) :
    ∃ r, s'.rows.get? seq = some r ∧ r.decode = .ok e := by
  rw [insert] at h
  split at h
  · cases h
  rename_i packed hpacked
  split at h
  · cases h
  split at h
  · cases h
  cases h
  exact ⟨_, by rw [SeqMap.get?_insert, if_pos rfl], Row.decode_ofEvent hpacked⟩

/-- An event is refused for the size of a value exactly if one is too long, and the first of them is
reported. -/
theorem insert_eq_valueSize_iff {n : Nat} :
    s.insert e json = .error (.event (.valueSize n)) ↔
      ∃ before t after, e.tags = before ++ t :: after ∧ (∀ b ∈ before, b.Fits) ∧ ¬ t.Fits ∧
        t.value.length = n := by
  rw [← Row.oversized?_eq_some_iff, insert]
  split
  · rename_i hpacked
    obtain ⟨t, ht, hlong⟩ := Row.packTags?_eq_none_iff.1 hpacked
    cases hn : Row.oversized? e.tags with
    | some m => simp
    | none =>
      rw [Row.oversized?, Option.map_eq_none_iff, List.find?_eq_none] at hn
      exact absurd (decide_eq_true hlong) (hn t ht)
  · rename_i packed hpacked
    have hfits := (Row.packTags?_eq_some_iff.1 hpacked).1
    refine iff_of_false (fun h => ?_) fun h => ?_
    · split at h
      · cases h
      split at h <;> cases h
    · obtain ⟨before, t, after, htags, -, hlong, -⟩ := Row.oversized?_eq_some_iff.1 h
      exact hlong (hfits t (htags ▸ List.mem_append_right _ List.mem_cons_self))

end RowStore

namespace Row

/-- The codec of rows.  An event whose tag values fit is read back from its row, with all its words, and so
is the event of every row that is inserted; words stand in two's complement.  Tags fail to pack exactly if
some value is too long, and the first such value is reported.  Unpacking accepts exactly the byte strings
that tags pack to and gives those tags; what it refuses is packed tags and the torn beginning of one more. -/
theorem codec_exact :
    (∀ (e : Event) (json : String), (∀ t ∈ e.tags, t.value.length ≤ 255) →
      ∃ packed, packTags? e.tags = some packed ∧ packed = e.tags.flatMap Tag.packed ∧
        (ofEvent e packed json).decode = .ok e) ∧
    (∀ n : UInt64, (signed n).toInt = (n.toNat : Int).bmod (2 ^ 64) ∧ unsigned (signed n) = n) ∧
    (∀ (s s' : RowStore) (e : Event) (json : String) (seq : Nat),
      s.insert e json = .ok (some seq, s') → ∃ r, s'.rows.get? seq = some r ∧ r.decode = .ok e) ∧
    (∀ (s : RowStore) (e : Event) (json : String) (n : Nat),
      s.insert e json = .error (.event (.valueSize n)) ↔
        ∃ before t after, e.tags = before ++ t :: after ∧ (∀ b ∈ before, b.value.length ≤ 255) ∧
          255 < t.value.length ∧ t.value.length = n) ∧
    (∀ tags, packTags? tags = none ↔ ∃ t ∈ tags, 255 < t.value.length) ∧
    (∀ s tags, unpackTags s = .ok tags ↔ packTags? tags = some s) ∧
    (∀ s why, unpackTags s = .error why ↔
      ∃ tags packed tail, packTags? tags = some packed ∧ Torn tail why ∧ s = packed ++ tail) ∧
    (∀ s, (∃ tags, unpackTags s = .ok tags) ∨ ∃ why, unpackTags s = .error why ∧
      (why.message = "truncated tag value" ∨ why.message = "trailing tag bytes")) := by
  refine ⟨fun e json h => ?_, fun n => ⟨toInt_signed n, unsigned_signed n⟩,
    fun s s' e json seq => RowStore.decode_of_insert, fun s e json n => ?_,
    fun tags => packTags?_eq_none_iff, fun s tags => unpackTags_eq_ok_iff,
    fun s why => unpackTags_eq_error_iff, fun s => ?_⟩
  · have hpacked : packTags? e.tags = some _ := packTags?_eq_some_iff.2 ⟨h, rfl⟩
    exact ⟨_, hpacked, rfl, decode_ofEvent hpacked⟩
  · simpa only [Tag.Fits, Nat.not_le] using RowStore.insert_eq_valueSize_iff
  · cases hs : unpackTags s with
    | ok tags => exact .inl ⟨tags, rfl⟩
    | error why =>
      obtain ⟨-, -, tail, -, htorn, -⟩ := unpackTags_eq_error_iff.1 hs
      exact .inr ⟨why, rfl, htorn.message⟩

/-- The codec at its bounds: the largest word, the word of the sign bit alone, a value that is empty and one
that is as long as it may be. -/
theorem codec_exact_bounds :
    let e : Event :=
      ⟨⟨List.replicate 32 0, rfl⟩, ⟨List.replicate 32 255, rfl⟩, 18446744073709551615,
        9223372036854775808, some 18446744073709551615,
        [⟨116, []⟩, ⟨0, List.replicate 255 7⟩]⟩
    (∀ t ∈ e.tags, t.value.length ≤ 255) ∧
      ∃ packed, packTags? e.tags = some packed ∧ packed = e.tags.flatMap Tag.packed ∧
        (ofEvent e packed "{}").decode = .ok e := by
  intro e
  have hfits : ∀ t ∈ e.tags, t.value.length ≤ 255 :=
    List.forall_mem_cons.2 ⟨Nat.zero_le _,
      List.forall_mem_cons.2 ⟨Nat.le_of_eq List.length_replicate, fun _ h => nomatch h⟩⟩
  exact ⟨hfits, codec_exact.1 e _ hfits⟩

end Row

end EventRelay
