import EventRelay.Json.Parser
import EventRelay.Proofs.Text.Utf8
/-!
# Names in objects

An object that was read has each name once, and the last of the fields that share a name is the one that
counts.  So it makes no difference where in an object a field stands: its name finds it.  The fields stand in
the order of the bytes of their names.

Main statements: `field?_eq_some_iff`, `Hereditary.of_parse?` (what all values have that are read) and the
two cases of it, `namesOnce_of_parse?` and `inByteOrder_of_parse?`.
-/

namespace EventRelay

namespace Json

/-- Whether in all the objects that a value is made of each name stands once. -/
inductive NamesOnce : Json → Prop
  | null : NamesOnce .null
  | bool {b} : NamesOnce (.bool b)
  | number {n} : NamesOnce (.number n)
  | string {s} : NamesOnce (.string s)
  | array {items} : (∀ item ∈ items, NamesOnce item) → NamesOnce (.array items)
  | object {fields} : (fields.map Prod.fst).Nodup → (∀ field ∈ fields, NamesOnce field.2) →
      NamesOnce (.object fields)

theorem NamesOnce.nodup {fields : List (String × Json)} (h : NamesOnce (.object fields)) :
    (fields.map Prod.fst).Nodup := by
  cases h with
  | object hnodup _ => exact hnodup

theorem NamesOnce.of_mem {items : List Json} (h : NamesOnce (.array items)) {item : Json}
    (hitem : item ∈ items) : item.NamesOnce := by
  cases h with
  | array hitems => exact hitems item hitem

/-- A name finds its field wherever that stands. -/
theorem field?_eq_some_iff {fields : List (String × Json)} (h : (fields.map Prod.fst).Nodup) {name : String}
    {v : Json} : field? name fields = some v ↔ (name, v) ∈ fields := by
  induction fields with
  | nil => simp [field?]
  | cons field rest ih =>
    obtain ⟨other, w⟩ := field
    rw [List.map_cons, List.nodup_cons] at h
    obtain ⟨hother, hrest⟩ := h
    by_cases heq : other = name
    · subst heq
      have habsent : (other, v) ∉ rest := fun hmem => hother (List.mem_map.2 ⟨_, hmem, rfl⟩)
      simp [field?, habsent, eq_comm]
    · have hne : (name, v) ≠ (other, w) := fun hpair => heq (congrArg Prod.fst hpair).symm
      rw [List.mem_cons, or_iff_right hne, ← ih hrest]
      simp only [field?]
      rw [List.find?_cons_of_neg (by simpa using heq)]

/-! ### Fields in their order -/

/-- Whether fields stand in ascending order of their names. -/
def Ascending (fields : List (String × Json)) : Prop := fields.Pairwise fun f g => f.1 < g.1

theorem Ascending.nodup {fields : List (String × Json)} (h : Ascending fields) :
    (fields.map Prod.fst).Nodup :=
  List.pairwise_map.2 (h.imp fun hlt => ne_of_lt hlt)

theorem mem_placeField {name : String} {v : Json} {fields : List (String × Json)} {field : String × Json}
    (h : field ∈ placeField name v fields) : field = (name, v) ∨ field ∈ fields := by
  induction fields with
  | nil => exact .inl (List.mem_singleton.1 h)
  | cons other rest ih =>
    rw [placeField] at h
    split at h
    · exact List.mem_cons.1 h
    · split at h
      · exact (List.mem_cons.1 h).imp_right (List.mem_cons_of_mem _)
      · rcases List.mem_cons.1 h with rfl | h
        · exact .inr List.mem_cons_self
        · exact (ih h).imp_right (List.mem_cons_of_mem _)

theorem Ascending.placeField {name : String} {v : Json} {fields : List (String × Json)}
    (h : Ascending fields) : Ascending (placeField name v fields) := by
  induction fields with
  | nil => exact List.pairwise_singleton _ _
  | cons other rest ih =>
    obtain ⟨hother, hrest⟩ := List.pairwise_cons.1 h
    rw [Json.placeField]
    split
    · rename_i hlt
      refine List.pairwise_cons.2 ⟨fun field hfield => ?_, h⟩
      rcases List.mem_cons.1 hfield with rfl | hfield
      · exact hlt
      · exact lt_trans hlt (hother field hfield)
    · rename_i hnot
      split
      · rename_i heq
        exact List.pairwise_cons.2 ⟨fun field hfield => heq ▸ hother field hfield, hrest⟩
      · rename_i hne
        have hgt : other.1 < name := lt_of_le_of_ne (not_lt.1 hnot) (Ne.symm hne)
        refine List.pairwise_cons.2 ⟨fun field hfield => ?_, ih hrest⟩
        rcases mem_placeField hfield with rfl | hfield
        · exact hgt
        · exact hother field hfield

/-- An object is built of some of the fields that it is given, in their order. -/
theorem exists_ofFields (fields : List (String × Json)) :
    ∃ placed, ofFields fields = .object placed ∧ Ascending placed ∧ ∀ field ∈ placed, field ∈ fields := by
  -- by induction on the fields, for whatever has been placed before them
  have key : ∀ start : List (String × Json), Ascending start →
      ∃ placed, fields.foldl (fun placed f => placeField f.1 f.2 placed) start = placed ∧ Ascending placed
        ∧ ∀ field ∈ placed, field ∈ start ∨ field ∈ fields := by
    induction fields with
    | nil => exact fun start hstart => ⟨start, rfl, hstart, fun _ => .inl⟩
    | cons field rest ih =>
      intro start hstart
      have hnext : Ascending (Json.placeField field.1 field.2 start) := hstart.placeField
      obtain ⟨placed, hfold, hplaced, hmem⟩ := ih _ hnext
      refine ⟨placed, hfold, hplaced, fun other hother => ?_⟩
      rcases hmem other hother with hstart | hrest
      · rcases mem_placeField hstart with rfl | hstart
        · exact .inr List.mem_cons_self
        · exact .inl hstart
      · exact .inr (List.mem_cons_of_mem _ hrest)
  obtain ⟨placed, hfold, hplaced, hmem⟩ := key [] .nil
  exact ⟨placed, congrArg Json.object hfold, hplaced, fun field hfield => (hmem field hfield).resolve_left nofun⟩

/-! ### Values that are read -/

/-- A property that a value has as soon as all have it that it is made of, if the fields of its objects are
in order. -/
structure Hereditary (P : Json → Prop) : Prop where
  null : P .null
  bool {b} : P (.bool b)
  number {n} : P (.number n)
  string {s} : P (.string s)
  array {items} : (∀ item ∈ items, P item) → P (.array items)
  object {fields} : Ascending fields → (∀ field ∈ fields, P field.2) → P (.object fields)

/-- Whether all values that a reader returns have a property. -/
def Reads (P : Json → Prop) (value : ValueReader) : Prop :=
  ∀ {cs v rest}, value cs = some (v, rest) → P v

section

variable {P : Json → Prop}

theorem Hereditary.ofFields (hP : Hereditary P) {fields : List (String × Json)}
    (h : ∀ field ∈ fields, P field.2) : P (ofFields fields) := by
  obtain ⟨placed, hplaced, hascending, hmem⟩ := exists_ofFields fields
  rw [hplaced]
  exact hP.object hascending fun field hfield => h field (hmem field hfield)

theorem Reads.items {value : ValueReader} (hvalue : Reads P value) {count : Nat}
    {cs rest : List Char} {items : List Json} (h : readItems? value count cs = some (items, rest)) :
    ∀ item ∈ items, P item := by
  induction count generalizing cs items with
  | zero => cases h
  | succ count ih =>
    rw [readItems?] at h
    split at h
    · cases h
    · rename_i v cs' hv
      split at h
      · cases h
        exact List.forall_mem_singleton.2 (hvalue hv)
      · split at h
        · cases h
        · rename_i vs rest' hvs
          cases h
          exact List.forall_mem_cons.2 ⟨hvalue hv, ih hvs⟩
      · cases h

theorem Reads.fields {value : ValueReader} (hvalue : Reads P value) {count : Nat}
    {cs rest : List Char} {fields : List (String × Json)}
    (h : readFields? value count cs = some (fields, rest)) : ∀ field ∈ fields, P field.2 := by
  induction count generalizing cs fields with
  | zero => cases h
  | succ count ih =>
    rw [readFields?] at h
    split at h
    · split at h
      · cases h
      · split at h
        · split at h
          · cases h
          · rename_i v cs' hv
            split at h
            · cases h
              exact List.forall_mem_singleton.2 (hvalue hv)
            · split at h
              · cases h
              · rename_i fields rest' hfields
                cases h
                exact List.forall_mem_cons.2 ⟨hvalue hv, ih hfields⟩
            · cases h
        · cases h
    · cases h

theorem Hereditary.reads_readScalar? (hP : Hereditary P) : Reads P readScalar? := by
  intro cs v rest h
  rw [readScalar?.eq_def] at h
  split at h
  · cases h
    exact hP.null
  · cases h
    exact hP.bool
  · cases h
    exact hP.bool
  · obtain ⟨r, -, hr⟩ := Option.map_eq_some_iff.1 h
    cases hr
    exact hP.string
  · obtain ⟨r, -, hr⟩ := Option.map_eq_some_iff.1 h
    cases hr
    exact hP.number

theorem Hereditary.reads_readValue? (hP : Hereditary P) {depth : Nat} : Reads P (readValue? depth) := by
  induction depth with
  | zero => exact hP.reads_readScalar?
  | succ depth ih =>
    intro cs v rest h
    rw [readValue?.eq_def] at h
    simp only at h
    split at h
    · split at h
      · cases h
        exact hP.array nofun
      · obtain ⟨r, hr, hv⟩ := Option.map_eq_some_iff.1 h
        cases hv
        exact hP.array (ih.items hr)
    · split at h
      · cases h
        exact hP.object .nil nofun
      · obtain ⟨r, hr, hv⟩ := Option.map_eq_some_iff.1 h
        cases hv
        exact hP.ofFields (ih.fields hr)
    · exact hP.reads_readScalar? h

/-- What a text writes has every such property. -/
theorem Hereditary.of_parse? (hP : Hereditary P) {text : String} {v : Json} (h : parse? text = some v) :
    P v := by
  rw [parse?, parseWithin?] at h
  split at h
  · rename_i w rest hread
    split at h
    · cases h
      exact hP.reads_readValue? hread
    · cases h
  · cases h

end

/-! ### Names once, in the order of their bytes -/

theorem hereditary_namesOnce : Hereditary NamesOnce where
  null := .null
  bool := .bool
  number := .number
  string := .string
  array := .array
  object hfields := .object hfields.nodup

/-- Whatever fields an object is built from, it has each name once. -/
theorem namesOnce_ofFields {fields : List (String × Json)} (h : ∀ field ∈ fields, NamesOnce field.2) :
    NamesOnce (ofFields fields) :=
  hereditary_namesOnce.ofFields h

/-- In the value that a text writes each object has each name once. -/
theorem namesOnce_of_parse? {text : String} {v : Json} (h : parse? text = some v) : NamesOnce v :=
  hereditary_namesOnce.of_parse? h

/-- Whether in all the objects that a value is made of the fields stand in ascending order of the bytes of
their names. -/
inductive InByteOrder : Json → Prop
  | null : InByteOrder .null
  | bool {b} : InByteOrder (.bool b)
  | number {n} : InByteOrder (.number n)
  | string {s} : InByteOrder (.string s)
  | array {items} : (∀ item ∈ items, InByteOrder item) → InByteOrder (.array items)
  | object {fields} :
      (fields.Pairwise fun f g => Bytes.cmp (Utf8.encode f.1) (Utf8.encode g.1) = .lt) →
      (∀ field ∈ fields, InByteOrder field.2) → InByteOrder (.object fields)

theorem InByteOrder.pairwise {fields : List (String × Json)} (h : InByteOrder (.object fields)) :
    fields.Pairwise fun f g => Bytes.cmp (Utf8.encode f.1) (Utf8.encode g.1) = .lt := by
  cases h with
  | object hfields _ => exact hfields

theorem InByteOrder.nodup {fields : List (String × Json)} (h : InByteOrder (.object fields)) :
    (fields.map Prod.fst).Nodup := by
  refine List.pairwise_map.2 (h.pairwise.imp fun {f g} hlt heq => ?_)
  rw [heq, Bytes.cmp_self] at hlt
  cases hlt

theorem InByteOrder.of_mem {items : List Json} (h : InByteOrder (.array items)) {item : Json}
    (hitem : item ∈ items) : item.InByteOrder := by
  cases h with
  | array hitems => exact hitems item hitem

theorem hereditary_inByteOrder : Hereditary InByteOrder where
  null := .null
  bool := .bool
  number := .number
  string := .string
  array := .array
  object hfields := .object (hfields.imp Utf8.cmp_encode_eq_lt_iff.2)

/-- The value that a text writes has its fields in the order of the bytes of their names. -/
theorem inByteOrder_of_parse? {text : String} {v : Json} (h : parse? text = some v) : InByteOrder v :=
  hereditary_inByteOrder.of_parse? h

end Json

end EventRelay
