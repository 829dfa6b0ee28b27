import EventRelay.Proofs.Reading
import EventRelay.Proofs.Text.Utf8
/-!
# Events, written and read again

An event that was read from JSON is read from its own wire form again, as it is.  Reading settles what the
way back needs: a tag has an ASCII name, and its value is an identifier or the bytes of a short text that
is not empty.  All else that the JSON value may have contained is gone: other fields, tags of longer names,
further items of a tag, and every expiration but the last.

Main statements: `Event.fromJson_iff` (what reading settles) and `Event.ofJson_toJson`.
-/

namespace EventRelay

/-! ### Texts of words and identifiers -/

namespace Decimal

theorem natOfDigits?_eq_some {cs : List Char} (h : ∀ c ∈ cs, c.isDigit = true) :
    natOfDigits? cs = some (Nat.ofDigitChars 10 cs 0) := by
  -- by induction on the digits, for whatever number they go on with
  have key : ∀ n, cs.foldlM (fun n c => if c.isDigit then some (n * 10 + (c.toNat - 48)) else none) n
      = some (Nat.ofDigitChars 10 cs n) := by
    induction cs with
    | nil => exact fun n => rfl
    | cons c cs ih =>
      obtain ⟨hc, hcs⟩ := List.forall_mem_cons.1 h
      intro n
      rw [List.foldlM_cons, if_pos hc, Nat.ofDigitChars_cons, Nat.mul_comm 10]
      exact ih hcs _
  exact key 0

/-- A word is read back from its digits. -/
theorem readWord?_toString (n : UInt64) : readWord? (toString n.toNat) = some n := by
  have hdigits : ∀ c ∈ Nat.toDigits 10 n.toNat, c.isDigit = true :=
    fun c hc => Nat.isDigit_of_mem_toDigits (by decide) (by decide) hc
  have hread : natOfDigits? (Nat.toDigits 10 n.toNat) = some n.toNat := by
    rw [natOfDigits?_eq_some hdigits, Nat.ofDigitChars_ten_toDigits]
  have hword : word? n.toNat = some n := by
    rw [word?, if_pos n.toNat_lt, UInt64.ofNat_toNat]
  have hlist : (toString n.toNat).toList = Nat.toDigits 10 n.toNat := by
    rw [Nat.toString_eq_ofList_toDigits, String.toList_ofList]
  rw [readWord?, hlist]
  cases hcs : Nat.toDigits 10 n.toNat with
  | nil => exact absurd hcs Nat.toDigits_ne_nil
  | cons c cs =>
    rw [hcs] at hread
    -- a plus sign is no digit
    have hplus : c ≠ '+' := by
      rintro rfl
      have hdigit := hdigits '+' (by rw [hcs]; exact List.mem_cons_self)
      cases hdigit
    split
    · rename_i rest hrest
      cases hrest
      exact absurd rfl hplus
    · simp [hread, hword]

end Decimal

namespace Hex

theorem digitOf_lt {n : UInt8} (h : n < 16) : (digitOf n).toNat < 0x80 := by
  have key : ∀ k : Fin 16, (digitOf (.ofNat k)).toNat < 0x80 := by decide
  have hdigit := key ⟨n.toNat, UInt8.lt_iff_toNat_lt.1 h⟩
  rwa [UInt8.ofNat_toNat] at hdigit

theorem lt_of_mem_encode {bytes : Bytes} {b : UInt8} (h : b ∈ encode bytes) : b.toNat < 0x80 := by
  induction bytes with
  | nil => cases h
  | cons x bytes ih =>
    rcases List.mem_cons.1 h with rfl | h
    · exact digitOf_lt (high_lt x)
    rcases List.mem_cons.1 h with rfl | h
    · exact digitOf_lt (low_lt x)
    · exact ih h

theorem encode_toText (bytes : Bytes) : Utf8.encode (toText bytes) = encode bytes :=
  Utf8.encode_ofList_map fun _ => lt_of_mem_encode

end Hex

theorem Id.ofHex_toText (i : Id) : ofHex (Hex.toText i.bytes) = .ok i := by
  rw [ofHex, Hex.encode_toText, ofHexBytes_encode]

/-! ### Tags -/

/-- Whether a tag has a wire form that is read as this tag. -/
structure Tag.Writable (t : Tag) : Prop where
  name_lt : t.name.toNat < 0x80
  value_id : holdsId t.name = true → t.value.length = 32
  value_text : holdsId t.name = false →
    (∃ s, Utf8.encode s = t.value) ∧ t.value ≠ [] ∧ t.value.length ≤ maxValueSize

namespace WireTag

variable {name text : String} {v : Json} {t : Tag}

theorem writable_of_readValue {byte : UInt8} {value : Bytes} (hname : Utf8.encode name = [byte])
    (h : readValue byte text = .ok value) : (⟨byte, value⟩ : Tag).Writable := by
  refine ⟨Utf8.lt_of_encode_eq_singleton hname, fun hid => length_readValue hid h, fun hid => ?_⟩
  have hid : Tag.holdsId byte = false := hid
  rw [readValue, hid, if_neg Bool.false_ne_true] at h
  simp only [Bool.or_eq_true, List.isEmpty_iff, decide_eq_true_eq] at h
  split at h
  · cases h
  · rename_i hsize
    cases h
    exact ⟨⟨text, rfl⟩, fun hnil => hsize (.inl hnil), Nat.not_lt.1 fun hlong => hsize (.inr hlong)⟩

theorem writable_of_ofJson (h : ofJson v = .ok (.indexed t)) : t.Writable := by
  rw [ofJson.eq_def] at h
  split at h
  · rw [ofStrings] at h
    split at h
    · cases h
    · split at h
      · rename_i byte hname
        split at h
        · rename_i value hread
          cases h
          exact writable_of_readValue hname hread
        · cases h
      · cases h
  all_goals cases h

theorem readValue_of_writable (h : t.Writable) :
    readValue t.name (if Tag.holdsId t.name then Hex.toText t.value else Utf8.decodeLossy t.value)
      = .ok t.value := by
  rw [readValue]
  cases hid : Tag.holdsId t.name with
  | true =>
    have hread : Id.ofHex (Hex.toText t.value) = .ok ⟨t.value, h.value_id hid⟩ :=
      Id.ofHex_toText ⟨t.value, h.value_id hid⟩
    simp only [↓reduceIte, hread]
  | false =>
    obtain ⟨⟨s, hs⟩, hne, hle⟩ := h.value_text hid
    have hsize : ¬ (t.value.isEmpty || decide (Tag.maxValueSize < t.value.length)) = true := by
      rw [Bool.or_eq_true, List.isEmpty_iff, decide_eq_true_eq]
      exact fun hbad => hbad.elim hne (Nat.not_lt.2 hle)
    have hback : Utf8.encode (Utf8.decodeLossy t.value) = t.value := by
      rw [← hs, Utf8.decodeLossy_encode]
    simp only [Bool.false_eq_true, if_false, hback, if_neg hsize]

/-- A tag is read back from its wire form. -/
theorem ofJson_tagToJson (h : t.Writable) : ofJson (Event.tagToJson t) = .ok (.indexed t) := by
  have hname := Utf8.encode_toString h.name_lt
  have hne : (Char.ofNat t.name.toNat).toString ≠ "expiration" := by
    intro heq
    rw [heq] at hname
    have hlong : (Utf8.encode "expiration").length ≠ 1 := by decide
    exact hlong (congrArg List.length hname)
  rw [Event.tagToJson, ofJson, ofStrings, if_neg hne]
  simp only [hname, readValue_of_writable h]

theorem ofJson_expiration (time : UInt64) :
    ofJson (.array [.string "expiration", .string (toString time.toNat)]) = .ok (.expiration (some time)) := by
  rw [ofJson, ofStrings, if_pos rfl, Decimal.readWord?_toString]

end WireTag

/-! ### Events -/

namespace Event

variable {v : Json} {e : Event}

/-- The tags of an event in JSON are read back, the expiration behind them. -/
theorem mapM_ofJson_tags (h : ∀ t ∈ e.tags, t.Writable) :
    (e.tags.map tagToJson ++ e.expiration.toList.map fun time =>
      Json.array [.string "expiration", .string (toString time.toNat)]).mapM WireTag.ofJson
      = .ok (e.tags.map .indexed ++ e.expiration.toList.map fun time => .expiration (some time)) := by
  rw [List.mapM_append, mapM_map_eq_ok fun t ht => WireTag.ofJson_tagToJson (h t ht),
    mapM_map_eq_ok fun time _ => WireTag.ofJson_expiration time]
  rfl

theorem tags_append_expiration :
    WireTag.tags (e.tags.map .indexed ++ e.expiration.toList.map fun time => .expiration (some time))
      = e.tags := by
  have htags : WireTag.tags (e.tags.map .indexed) = e.tags := by
    rw [WireTag.tags, List.filterMap_map]
    exact List.filterMap_some
  have htime : WireTag.tags (e.expiration.toList.map fun time => .expiration (some time)) = [] := by
    cases e.expiration <;> rfl
  rw [WireTag.tags, List.filterMap_append]
  exact (congrArg₂ _ htags htime).trans (List.append_nil _)

theorem expirationOf_append_expiration :
    WireTag.expirationOf (e.tags.map .indexed ++ e.expiration.toList.map fun time => .expiration (some time))
      = e.expiration := by
  have htags : WireTag.expirationOf (e.tags.map .indexed) = none := by
    rw [WireTag.expirationOf, List.foldl_map]
    exact List.foldl_fixed e.tags
  rw [WireTag.expirationOf, List.foldl_append]
  rw [WireTag.expirationOf] at htags
  rw [htags]
  cases e.expiration <;> rfl

theorem ofJson_object {fields : List (String × Json)} {id author : Id} {createdAt kind : UInt64}
    {raw : List Json} {ws : List WireTag} (hid : idField fields "id" = .ok id)
    (hauthor : idField fields "pubkey" = .ok author) (hcreatedAt : unsignedField fields "created_at" = .ok createdAt)
    (hkind : unsignedField fields "kind" = .ok kind) (htags : Json.field? "tags" fields = some (.array raw))
    (hws : raw.mapM WireTag.ofJson = .ok ws) :
    ofJson (.object fields) = .ok ⟨id, author, createdAt, kind, WireTag.expirationOf ws, WireTag.tags ws⟩ := by
  simp only [ofJson, hid, hauthor, hcreatedAt, hkind, htags, hws]
  rfl

theorem ofJson_toJson_of_writable (h : ∀ t ∈ e.tags, t.Writable) : ofJson e.toJson = .ok e := by
  have hid : ∀ {fields name} {i : Id}, Json.field? name fields = some (.string i.toHex) →
      idField fields name = .ok i := by
    intro fields name i hfield
    have hread : Id.ofHex i.toHex = .ok i := i.ofHex_toText
    have htext : stringField fields name = .ok i.toHex := by
      rw [stringField, hfield]
      rfl
    simp only [idField, htext, bind, Except.bind, hread]
  have hword : ∀ {fields name n}, Json.field? name fields = some (.ofWord n) →
      unsignedField fields name = .ok n := by
    intro fields name n hfield
    have hread : (Json.ofWord n).unsigned? = some n := by
      show Decimal.word? n.toNat = some n
      rw [Decimal.word?, if_pos n.toNat_lt, UInt64.ofNat_toNat]
    rw [unsignedField, hfield, Option.bind_some, hread]
  have hread : ofJson e.toJson = .ok ⟨e.id, e.author, e.createdAt, e.kind, _, _⟩ :=
    ofJson_object (hid rfl) (hid rfl) (hword rfl) (hword rfl) rfl (mapM_ofJson_tags h)
  rw [tags_append_expiration, expirationOf_append_expiration] at hread
  exact hread

/-- An event can be read from JSON if its tags have a wire form that is read back. -/
theorem fromJson_iff : e.FromJson ↔ ∀ t ∈ e.tags, t.Writable := by
  constructor
  · intro h t ht
    obtain ⟨raw, hraw⟩ := h.exists_wireTag ht
    exact WireTag.writable_of_ofJson hraw
  · intro h
    exact ⟨e.toJson, ofJson_toJson_of_writable h⟩

/-- An event that was read from JSON is read from its wire form again. -/
theorem ofJson_toJson (h : ofJson v = .ok e) : ofJson e.toJson = .ok e :=
  ofJson_toJson_of_writable (fromJson_iff.1 ⟨v, h⟩)

/-- An event in JSON with much that is left out of its wire form: capital digits, a relay behind an
identifier, a title, several expirations, and text. -/
def cluttered : Json := .ofFields
  [("pubkey", .string "0123456789ABCDEFabcdef00000000000000000000000000000000000000FFFF"),
    ("id", .string "ABABABABABABABABABABABABABABABABABABABABABABABABABABABABABABABAB"),
    ("created_at", .ofNat 18446744073709551615), ("kind", .ofNat 7), ("content", .string "é"),
    ("tags", .array [
      .array [.string "expiration", .string "1800"],
      .array [.string "e", .string "CDCDCDCDCDCDCDCDCDCDCDCDCDCDCDCDCDCDCDCDCDCDCDCDCDCDCDCDCDCDCDCD", .string "relay"],
      .array [.string "title", .string "", .null],
      .array [.string "expiration", .string "soon"],
      .array [.string "t", .string "né 😀"],
      .array [.string "expiration", .string "+01900"]])]

theorem ofJson_toJson_cluttered :
    let id : Id := ⟨List.replicate 32 0xAB, List.length_replicate⟩
    let author : Id := ⟨[0x01, 0x23, 0x45, 0x67, 0x89, 0xAB, 0xCD, 0xEF, 0xAB, 0xCD, 0xEF] ++ List.replicate 19 0
      ++ [0xFF, 0xFF], by decide⟩
    let e : Event := ⟨id, author, 0xFFFFFFFFFFFFFFFF, 7, some 1900,
      [⟨0x65, List.replicate 32 0xCD⟩, ⟨0x74, [0x6E, 0xC3, 0xA9, 0x20, 0xF0, 0x9F, 0x98, 0x80]⟩]⟩
    ofJson cluttered = .ok e ∧ ofJson e.toJson = .ok e := by
  intro id author e
  have hread : ofJson cluttered = .ok e := by decide +kernel
  exact ⟨hread, ofJson_toJson hread⟩

end Event

end EventRelay
