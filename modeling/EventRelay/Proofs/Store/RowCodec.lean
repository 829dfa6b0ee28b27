import EventRelay.Store.Codec
/-!
# Reading back a row

A row made of an event whose tags can be packed is read as that event again.

Main statements: `Row.unpackTags_of_packTags?` for the tags and `Row.stored_ofEvent` for the row.
-/

namespace EventRelay

namespace Row

/-- Packed tags are read back. -/
theorem unpackTags_of_packTags? {tags : List Tag} {packed : Bytes}
    (h : packTags? tags = some packed) : unpackTags packed = .ok tags := by
  induction tags generalizing packed with
  | nil =>
    cases h
    simp [unpackTags]
  | cons t rest ih =>
    rw [packTags?] at h
    split at h
    · rename_i hsize
      obtain ⟨tail, htail, rfl⟩ := Option.map_eq_some_iff.1 h
      have hlen : (UInt8.ofNat t.value.length).toNat = t.value.length :=
        UInt8.toNat_ofNat_of_lt' (Nat.lt_of_le_of_lt hsize (by decide))
      have hshort : ¬ (t.value ++ tail).length < t.value.length := by simp
      rw [unpackTags, hlen, if_neg hshort, List.drop_left, ih htail, List.take_left]
    · cases h

/-- Only a value that is too long keeps tags from being packed. -/
theorem packTags?_eq_none_iff {tags : List Tag} :
    packTags? tags = none ↔ ∃ t ∈ tags, Tag.maxValueSize < t.value.length := by
  induction tags with
  | nil => simp [packTags?]
  | cons t rest ih =>
    simp only [packTags?, List.mem_cons, exists_eq_or_imp, ← ih]
    split
    · rename_i hsize
      rw [Option.map_eq_none_iff]
      exact ⟨.inr, fun h => h.resolve_left (Nat.not_lt.2 hsize)⟩
    · rename_i hsize
      exact ⟨fun _ => .inl (Nat.lt_of_not_le hsize), fun _ => rfl⟩

theorem unsigned_signed (n : UInt64) : unsigned (signed n) = n := rfl

theorem expiration?_ofEvent {e : Event} {packed : Bytes} {json : String} :
    expiration? (ofEvent e packed json).expiration = .ok e.expiration := by
  rw [ofEvent]
  cases e.expiration <;> rfl

/-- A row made of an event is decoded to that event. -/
theorem decode_ofEvent {e : Event} {packed : Bytes} {json : String}
    (h : packTags? e.tags = some packed) : (ofEvent e packed json).decode = .ok e := by
  rw [decode, expiration?_ofEvent]
  simp [ofEvent, unpackTags_of_packTags? h, unsigned_signed]

/-- A row made of an event is read as that event. -/
theorem stored_ofEvent {e : Event} {packed : Bytes} {json : String}
    (h : packTags? e.tags = some packed) : (ofEvent e packed json).stored = .event e := by
  rw [stored, decode_ofEvent h]

end Row

end EventRelay
