import EventRelay.Proofs.Filter.Meaning
/-!
# Which values are filters, and what is wrong with the others

The grammar of filters, said without a reader: which items a field may list, which values a field may have,
which fields an object may have, and how many of them may list values of a tag.  Beside each rule stand the
faults of what breaks it.  Where several rules are broken, the fault that is reported is of the first field
in the order of the bytes of the names, and in it of the first item; that there are too many tags is only
reported of fields that are all in order.

Every stage of reading is decided by its rule and its faults, and the stages come to the grammar.

Main statements: `Clause.decided_ofField`, `Filter.decided_ofJson` and `FilterGroup.ofJson_grammar`.
-/

namespace EventRelay

/-! ### Items -/

namespace Filter

/-- What the items of a field are like. -/
inductive Form where
  | id
  | word
  | text

namespace Form

/-- Whether an item is one: 64 hexadecimal digits of either size, a word, or a text of at most 255 bytes. -/
inductive Fits : Form → Json → Prop
  | id {s} : Id.IsWritten (Utf8.encode s) → Fits .id (.string s)
  | word {n} : Fits .word (.ofWord n)
  | text {s} : (Utf8.encode s).length ≤ 255 → Fits .text (.string s)

/-- Why an item of the field `key` is none. -/
inductive Fault (key : String) : Form → Json → FilterError → Prop
  | idNotString {v} : (∀ s, v ≠ .string s) → Fault key .id v .notString
  | id {s e} : Id.Fault (Utf8.encode s) e → Fault key .id (.string s) (.id e)
  | notWord {v} : (∀ n, v ≠ .ofWord n) → Fault key .word v (.notUnsigned key)
  | textNotString {v} : (∀ s, v ≠ .string s) → Fault key .text v .notString
  | text {s} : 255 < (Utf8.encode s).length → Fault key .text (.string s) (.valueSize (Utf8.encode s).length)

end Form

namespace Clause

variable {key : String} {v : Json}

theorem readId_of_not_string (hv : ∀ s, v ≠ .string s) : readId v = .error .notString := by
  cases v with
  | string s => exact absurd rfl (hv s)
  | _ => rfl

theorem decided_readId : Decided (readId v) (Form.id.Fits v) (Form.id.Fault key v) := by
  refine .of_total ?total (fun h => ?fits) fun e h => ?fault
  case total =>
    by_cases hv : ∃ s, v = .string s
    · obtain ⟨s, rfl⟩ := hv
      refine (Id.decided_ofHexBytes (Utf8.encode s)).total.imp .id ?_
      rintro ⟨e, he⟩
      exact ⟨_, .id he⟩
    · exact .inr ⟨_, .idNotString fun s hs => hv ⟨s, hs⟩⟩
  case fits =>
    cases h with
    | id h =>
      obtain ⟨i, hi⟩ := (Id.decided_ofHexBytes _).ok_iff.2 h
      exact ⟨i, by rw [readId, Id.ofHex, hi]⟩
  case fault =>
    cases h with
    | idNotString hv => exact readId_of_not_string hv
    | id h => rw [readId, Id.ofHex, ((Id.decided_ofHexBytes _).error_iff _).2 h]

theorem readText_of_not_string (hv : ∀ s, v ≠ .string s) : readText v = .error .notString := by
  cases v with
  | string s => exact absurd rfl (hv s)
  | _ => rfl

theorem decided_readText : Decided (readText v) (Form.text.Fits v) (Form.text.Fault key v) := by
  refine .of_total ?total (fun h => ?fits) fun e h => ?fault
  case total =>
    by_cases hv : ∃ s, v = .string s
    · obtain ⟨s, rfl⟩ := hv
      exact (Nat.lt_or_ge 255 _).symm.imp .text fun h => ⟨_, .text h⟩
    · exact .inr ⟨_, .textNotString fun s hs => hv ⟨s, hs⟩⟩
  case fits =>
    cases h with
    | text h => exact ⟨_, if_neg (Nat.not_lt.2 h)⟩
  case fault =>
    cases h with
    | textNotString hv => exact readText_of_not_string hv
    | text h => exact if_pos h

theorem decided_readUnsigned (key : String) (v : Json) :
    Decided (readUnsigned key v) (Form.word.Fits v) (Form.word.Fault key v) := by
  refine .of_total ?total (fun h => ?fits) fun e h => ?fault
  case total =>
    by_cases h : ∃ n, v = .ofWord n
    · obtain ⟨n, rfl⟩ := h
      exact .inl .word
    · exact .inr ⟨_, .notWord fun n hn => h ⟨n, hn⟩⟩
  case fits =>
    cases h with
    | @word n => exact ⟨n, by rw [readUnsigned, Json.unsigned?_eq_some_iff.2 rfl]⟩
  case fault =>
    cases h with
    | notWord h =>
      rw [readUnsigned]
      cases hn : v.unsigned? with
      | none => rfl
      | some n => exact absurd (Json.unsigned?_eq_some_iff.1 hn) (h n)

theorem decided_readTagValue {name : UInt8} :
    Decided (readTagValue name v) ((if Tag.holdsId name then Form.id else .text).Fits v)
      ((if Tag.holdsId name then Form.id else .text).Fault key v) := by
  rw [readTagValue]
  by_cases hname : Tag.holdsId name = true
  · rw [if_pos hname, if_pos hname]
    exact decided_readId.map Id.bytes
  · rw [if_neg hname, if_neg hname]
    exact decided_readText

end Clause

/-! ### Values of fields -/

namespace Field

/-- What a field lists; a bound on time or number lists nothing. -/
def form? : Field → Option Form
  | .ids | .authors => some .id
  | .kinds => some .word
  | .tag name => some (if Tag.holdsId name then .id else .text)
  | .since | .upTo | .limit => none

/-- Whether a value is one of a field.  The empty array is one of every field. -/
inductive Fits : Field → Json → Prop
  | nothing {x} : Fits x (.array [])
  | items {x form items} : x.form? = some form → (∀ i ∈ items, form.Fits i) → Fits x (.array items)
  | word {x v} : x.form? = none → Form.word.Fits v → Fits x v

/-- Why a value is none of the field `key`: it is of another sort, or an item is at fault and all before it
fit. -/
inductive Fault (key : String) : Field → Json → FilterError → Prop
  | notArray {x form v} : x.form? = some form → (∀ items, v ≠ .array items) → Fault key x v (.notArray key)
  | item {x form before i after e} : x.form? = some form → (∀ b ∈ before, form.Fits b) →
      form.Fault key i e → Fault key x (.array (before ++ i :: after)) e
  | word {x v e} : x.form? = none → v ≠ .array [] → Form.word.Fault key v e → Fault key x v e

end Field

namespace Clause

variable {key : String} {v : Json} {field : Field} {form : Form}

theorem decided_items {α : Type} {read : Json → Except FilterError α}
    (h : ∀ i, Decided (read i) (form.Fits i) (form.Fault key i)) (k : List α → Clause) (l : List Json) :
    Decided (do return k (← (← items key (.array l)).mapM read)) (∀ i ∈ l, form.Fits i)
      fun e => ∃ before i after, l = before ++ i :: after ∧ (∀ b ∈ before, form.Fits b) ∧
        form.Fault key i e := by
  have hmap : (do return k (← (← items key (.array l)).mapM read)) = (l.mapM read).map k :=
    bind_pure_eq_map _ _
  rw [hmap]
  exact (Decided.mapM fun i _ => h i).map k

/-- A field that lists items is read item by item. -/
theorem decided_ofValue_array (key : String) (hform : field.form? = some form) (l : List Json) :
    Decided (ofValue key (.array l) field) (∀ i ∈ l, form.Fits i)
      fun e => ∃ before i after, l = before ++ i :: after ∧ (∀ b ∈ before, form.Fits b) ∧
        form.Fault key i e := by
  cases field with
  | ids | authors =>
    cases hform
    exact decided_items (fun _ => decided_readId) _ l
  | kinds =>
    cases hform
    exact decided_items (decided_readUnsigned key) _ l
  | tag name =>
    cases hform
    exact decided_items (fun _ => decided_readTagValue) _ l
  | since | upTo | limit => cases hform

theorem ofValue_of_not_array (hform : field.form? = some form) (hv : ∀ l, v ≠ .array l) :
    ofValue key v field = .error (.notArray key) := by
  have hitems : items key v = .error (.notArray key) := by
    cases v with
    | array l => exact absurd rfl (hv l)
    | _ => rfl
  cases field with
  | ids | authors | kinds | tag =>
    rw [ofValue, hitems]
    rfl
  | since | upTo | limit => cases hform

/-- A field that lists nothing is a word. -/
theorem decided_ofValue_word (hform : field.form? = none) :
    Decided (ofValue key v field) (Form.word.Fits v) (Form.word.Fault key v) := by
  have hmap : ∃ k, ofValue key v field = (readUnsigned key v).map k := by
    cases field with
    | ids | authors | kinds | tag => cases hform
    | since | upTo | limit => exact ⟨_, bind_pure_eq_map _ _⟩
  obtain ⟨k, hk⟩ := hmap
  rw [hk]
  exact (decided_readUnsigned key v).map k

end Clause

theorem Field.fits_or_fault (x : Field) (key : String) (v : Json) : x.Fits v ∨ ∃ e, x.Fault key v e := by
  by_cases hv : v = .array []
  · exact .inl (hv ▸ .nothing)
  cases hform : x.form? with
  | none =>
    refine (Clause.decided_readUnsigned key v).total.imp (.word hform) ?_
    rintro ⟨e, he⟩
    exact ⟨e, .word hform hv he⟩
  | some form =>
    by_cases harray : ∃ l, v = .array l
    · obtain ⟨l, rfl⟩ := harray
      refine (Clause.decided_ofValue_array key hform l).total.imp (.items hform) ?_
      rintro ⟨e, before, i, after, rfl, hbefore, hi⟩
      exact ⟨e, .item hform hbefore hi⟩
    · exact .inr ⟨_, .notArray hform fun l hl => harray ⟨l, hl⟩⟩

/-- The value of a field is decided by the field; that it may be empty is looked at first. -/
theorem Clause.decided_value (x : Field) (key : String) (v : Json) :
    Decided (if v.isEmptyArray then return .nothing else ofValue key v x) (x.Fits v) (x.Fault key v) := by
  refine .of_total (x.fits_or_fault key v) (fun h => ?fits) fun e h => ?fault
  case fits =>
    split
    · exact ⟨_, rfl⟩
    · cases h with
      | nothing => contradiction
      | items hform hitems => exact (decided_ofValue_array key hform _).ok_iff.2 hitems
      | word hform hword => exact (decided_ofValue_word hform).ok_iff.2 hword
  case fault =>
    have hnonempty : v.isEmptyArray ≠ true := by
      rw [Ne, Json.isEmptyArray_iff]
      cases h with
      | notArray _ hv => exact hv []
      | item => simp
      | word _ hv => exact hv
    rw [if_neg hnonempty]
    cases h with
    | notArray hform hv => exact ofValue_of_not_array hform hv
    | item hform hbefore hi =>
      exact ((decided_ofValue_array key hform _).error_iff e).2 ⟨_, _, _, rfl, hbefore, hi⟩
    | word hform _ hword => exact ((decided_ofValue_word hform).error_iff e).2 hword

/-! ### Fields of objects -/

namespace Field

/-- Why a name is none of a field: it begins with a number sign and not exactly one byte follows, or it is
another name altogether. -/
inductive NameFault : String → FilterError → Prop
  | unindexedTag {text} : (Utf8.encode text).length ≠ 1 → NameFault ("#" ++ text) (.unindexedTag ("#" ++ text))
  | unsupportedField {key} : (∀ text, key ≠ "#" ++ text) →
      key ∉ ["ids", "authors", "kinds", "since", "until", "limit"] → NameFault key (.unsupportedField key)

theorem HasName.ofName {x : Field} {key : String} (h : x.HasName key) : ofName key = .ok x := by
  cases x with
  | tag name =>
    obtain ⟨text, rfl, htext⟩ := h
    exact ofName_tag htext
  | _ =>
    cases h
    rfl

theorem NameFault.ofName {key : String} {e : FilterError} (h : NameFault key e) :
    ofName key = .error e := by
  cases h with
  | @unindexedTag text hlength =>
    rw [ofName_hash]
    split
    · rename_i byte hbyte
      exact absurd (congrArg List.length hbyte) hlength
    · rfl
  | unsupportedField hhash hkey =>
    rw [Field.ofName]
    split
    · rename_i rest hrest
      refine absurd ?_ (hhash (String.ofList rest))
      rw [← String.toList_inj, hrest]
      simp
    · simp only [List.mem_cons, List.not_mem_nil, or_false, not_or] at hkey
      obtain ⟨hids, hauthors, hkinds, hsince, huntil, hlimit⟩ := hkey
      rw [if_neg hids, if_neg hauthors, if_neg hkinds, if_neg hsince, if_neg huntil, if_neg hlimit]

theorem hasName_or_nameFault (key : String) : (∃ x : Field, x.HasName key) ∨ ∃ e, NameFault key e := by
  by_cases hhash : ∃ text, key = "#" ++ text
  · obtain ⟨text, rfl⟩ := hhash
    by_cases hlength : (Utf8.encode text).length = 1
    · obtain ⟨name, hname⟩ := List.length_eq_one_iff.1 hlength
      exact .inl ⟨.tag name, text, rfl, hname⟩
    · exact .inr ⟨_, .unindexedTag hlength⟩
  · by_cases hkey : key ∈ ["ids", "authors", "kinds", "since", "until", "limit"]
    · simp only [List.mem_cons, List.not_mem_nil, or_false] at hkey
      rcases hkey with h | h | h | h | h | h
      · exact .inl ⟨.ids, h⟩
      · exact .inl ⟨.authors, h⟩
      · exact .inl ⟨.kinds, h⟩
      · exact .inl ⟨.since, h⟩
      · exact .inl ⟨.upTo, h⟩
      · exact .inl ⟨.limit, h⟩
    · exact .inr ⟨_, .unsupportedField (fun text h => hhash ⟨text, h⟩) hkey⟩

end Field

/-- A field of an object: its name and its value. -/
abbrev Entry := String × Json

namespace Entry

/-- Whether an entry may stand in a filter: its name is one of a field, and its value is one of this field. -/
inductive Fits : Entry → Prop
  | mk {x : Field} {key v} : x.HasName key → x.Fits v → Fits (key, v)

/-- Why an entry may not stand in a filter.  The name comes first, whatever the value is. -/
inductive Fault : Entry → FilterError → Prop
  | name {key v e} : Field.NameFault key e → Fault (key, v) e
  | value {x : Field} {key v e} : x.HasName key → x.Fault key v e → Fault (key, v) e

/-- Whether an entry lists values of a tag. -/
def listsTag (entry : Entry) : Bool := entry.1.toList.head? = some '#' && !entry.2.isEmptyArray

end Entry

namespace Clause

theorem decided_ofField (entry : Entry) : Decided (ofField entry) entry.Fits entry.Fault := by
  obtain ⟨key, v⟩ := entry
  have hread : ∀ {x : Field}, x.HasName key →
      ofField (key, v) = if v.isEmptyArray then return .nothing else ofValue key v x := by
    intro x hx
    rw [ofField, hx.ofName]
    rfl
  refine .of_total ?total (fun h => ?fits) fun e h => ?fault
  case total =>
    rcases Field.hasName_or_nameFault key with ⟨x, hx⟩ | ⟨e, he⟩
    · exact (x.fits_or_fault key v).imp (.mk hx) fun ⟨e, he⟩ => ⟨e, .value hx he⟩
    · exact .inr ⟨e, .name he⟩
  case fits =>
    obtain ⟨hx, hv⟩ := h
    rw [hread hx]
    exact (decided_value _ key v).ok_iff.2 hv
  case fault =>
    cases h with
    | name he =>
      rw [ofField, he.ofName]
      rfl
    | value hx he =>
      rw [hread hx]
      exact ((decided_value _ key v).error_iff e).2 he

/-- The entries that list values of a tag are those that are read into a clause on one. -/
theorem listsTag_eq_isTag {entry : Entry} {c : Clause} (h : ofField entry = .ok c) :
    entry.listsTag = c.isTag := by
  obtain ⟨key, v⟩ := entry
  obtain ⟨x, hx, hreads⟩ := reads_of_ofField h
  have hname := Field.hasName_of_ofName hx
  have hempty : ∀ {items : List Json}, items ≠ [] → (Json.array items).isEmptyArray = false :=
    fun hne => Bool.eq_false_iff.2 fun h => hne (Json.array.inj (Json.isEmptyArray_iff.1 h))
  cases hreads with
  | nothing => simp [Entry.listsTag, Json.isEmptyArray, isTag]
  | tag hne =>
    obtain ⟨text, rfl, -⟩ := hname
    simp [Entry.listsTag, hempty hne, isTag]
  | _ =>
    cases hname
    simp [Entry.listsTag, isTag]

end Clause

/-! ### Filters -/

/-- Whether a value is a filter. -/
inductive Fits : Json → Prop
  | mk {entries : List Entry} : (∀ entry ∈ entries, entry.Fits) → entries.countP Entry.listsTag ≤ 3 →
      Fits (.object entries)

/-- Why a value is no filter.  The entry that is reported is the first at fault in the order of the bytes of
the names. -/
inductive Fault : Json → FilterError → Prop
  | notObject {v} : (∀ entries, v ≠ .object entries) → Fault v .notObject
  | entry {entries : List Entry} {entry e} : entry ∈ entries → entry.Fault e →
      (∀ other ∈ entries, Bytes.cmp (Utf8.encode other.1) (Utf8.encode entry.1) = .lt → other.Fits) →
      Fault (.object entries) e
  | tooManyTags {entries : List Entry} : (∀ entry ∈ entries, entry.Fits) →
      3 < entries.countP Entry.listsTag → Fault (.object entries) .tooManyTags

/-- Once its entries are read, an object is a filter unless too many of them list values of a tag. -/
theorem decided_ofClauses (maxLimit : UInt64) {entries : List Entry} (hnodup : (entries.map Prod.fst).Nodup)
    {clauses : List Clause} (h : entries.mapM Clause.ofField = .ok clauses) :
    Decided (ofClauses maxLimit clauses) (entries.countP Entry.listsTag ≤ 3)
      fun e => 3 < entries.countP Entry.listsTag ∧ e = .tooManyTags := by
  have hlength : (clauses.foldl restrict unrestricted).tags.length = entries.countP Entry.listsTag := by
    rw [length_tags_foldl (fun c _ field _ => lacks_unrestricted) (Clause.pairwise_field?_of_mapM hnodup h),
      countP_of_mapM h Clause.listsTag_eq_isTag]
    exact Nat.zero_add _
  simp only [ofClauses, hlength]
  refine .of_total ?total (fun h => ⟨_, if_neg (Nat.not_lt.2 h)⟩) ?fault
  case total => exact (Nat.lt_or_ge 3 _).symm.imp_right fun h => ⟨_, h, rfl⟩
  case fault =>
    rintro e ⟨h, rfl⟩
    exact if_pos h

theorem ofJson_of_not_object {maxLimit : UInt64} {v : Json} (hv : ∀ entries, v ≠ .object entries) :
    ofJson maxLimit v = .error .notObject := by
  cases v with
  | object entries => exact absurd rfl (hv entries)
  | _ => rfl

/-- The first entry at fault where entries stand in the order of the bytes of their names. -/
theorem exists_firstFault_iff {entries : List Entry} (hv : (Json.object entries).InByteOrder) {e : FilterError} :
    (∃ before entry after, entries = before ++ entry :: after ∧ (∀ b ∈ before, Entry.Fits b) ∧
        Entry.Fault entry e) ↔
      ∃ entry ∈ entries, Entry.Fault entry e ∧
        ∀ other ∈ entries, Bytes.cmp (Utf8.encode other.1) (Utf8.encode entry.1) = .lt → Entry.Fits other := by
  refine exists_first_iff (fun {a b} hab hba => ?_) hv.pairwise
  rw [Bytes.cmp_eq_swap, hba] at hab
  cases hab

/-- A value with its fields in order is decided by the grammar of filters. -/
theorem decided_ofJson (maxLimit : UInt64) {v : Json} (hv : v.InByteOrder) :
    Decided (ofJson maxLimit v) (Fits v) (Fault v) := by
  have hentries : ∀ entries : List Entry, Decided (entries.mapM Clause.ofField) _ _ :=
    fun entries => Decided.mapM fun entry _ => Clause.decided_ofField entry
  refine .of_total ?total (fun h => ?fits) fun e h => ?fault
  case total =>
    by_cases hobject : ∃ entries, v = .object entries
    · obtain ⟨entries, rfl⟩ := hobject
      rcases (hentries entries).total with hall | ⟨e, he⟩
      · exact (Nat.lt_or_ge 3 _).symm.imp (.mk hall) fun h => ⟨_, .tooManyTags hall h⟩
      · obtain ⟨entry, hentry, hfault, hbelow⟩ := (exists_firstFault_iff hv).1 he
        exact .inr ⟨e, .entry hentry hfault hbelow⟩
    · exact .inr ⟨_, .notObject fun entries h => hobject ⟨entries, h⟩⟩
  case fits =>
    obtain ⟨hall, hcount⟩ := h
    obtain ⟨clauses, hclauses⟩ := (hentries _).ok_iff.2 hall
    rw [ofJson, hclauses]
    exact (decided_ofClauses maxLimit hv.nodup hclauses).ok_iff.2 hcount
  case fault =>
    cases h with
    | notObject hobject => exact ofJson_of_not_object hobject
    | entry hentry hfault hbelow =>
      have hfirst := (exists_firstFault_iff hv).2 ⟨_, hentry, hfault, hbelow⟩
      rw [ofJson, ((hentries _).error_iff e).2 hfirst]
      rfl
    | tooManyTags hall hcount =>
      obtain ⟨clauses, hclauses⟩ := (hentries _).ok_iff.2 hall
      rw [ofJson, hclauses]
      exact ((decided_ofClauses maxLimit hv.nodup hclauses).error_iff _).2 ⟨hcount, rfl⟩

end Filter

namespace FilterGroup

/-- Whether a value is a filter or an array of filters. -/
inductive Fits : Json → Prop
  | single {v} : Filter.Fits v → Fits v
  | array {items} : (∀ item ∈ items, Filter.Fits item) → Fits (.array items)

/-- Why a value is neither: the first item that is no filter is reported. -/
inductive Fault : Json → FilterError → Prop
  | single {v e} : (∀ items, v ≠ .array items) → Filter.Fault v e → Fault v e
  | item {before item after e} : (∀ other ∈ before, Filter.Fits other) → Filter.Fault item e →
      Fault (.array (before ++ item :: after)) e

theorem ofJson_array (maxLimit : UInt64) (items : List Json) :
    ofJson maxLimit (.array items) = (items.mapM (Filter.ofJson maxLimit)).map ofFilters :=
  bind_pure_eq_map _ _

theorem ofJson_of_not_array {maxLimit : UInt64} {v : Json} (hv : ∀ items, v ≠ .array items) :
    ofJson maxLimit v = (Filter.ofJson maxLimit v).map fun f => ofFilters [f] := by
  rw [ofJson, bind_pure_eq_map]
  exact hv

/-- A value with the fields of its objects in order is decided by the grammar of filters. -/
theorem decided_ofJson (maxLimit : UInt64) {v : Json} (hv : v.InByteOrder) :
    Decided (ofJson maxLimit v) (Fits v) (Fault v) := by
  by_cases harray : ∃ items, v = .array items
  · obtain ⟨items, rfl⟩ := harray
    have hitems := (Decided.mapM fun item (hitem : item ∈ items) =>
      Filter.decided_ofJson maxLimit (hv.of_mem hitem)).map ofFilters
    rw [ofJson_array]
    refine .of_total ?total (fun h => hitems.ok_iff.2 ?fits) fun e h => (hitems.error_iff e).2 ?fault
    case total =>
      refine hitems.total.imp .array ?_
      rintro ⟨e, before, item, after, rfl, hbefore, hfault⟩
      exact ⟨e, .item hbefore hfault⟩
    case fits =>
      cases h with
      | single h => cases h
      | array h => exact h
    case fault =>
      cases h with
      | single harray => exact absurd rfl (harray items)
      | item hbefore hfault => exact ⟨_, _, _, rfl, hbefore, hfault⟩
  · have hv' : ∀ items, v ≠ .array items := fun items h => harray ⟨items, h⟩
    have hfilter := (Filter.decided_ofJson maxLimit hv).map fun f => ofFilters [f]
    rw [ofJson_of_not_array hv']
    refine .of_total ?total' (fun h => hfilter.ok_iff.2 ?fits') fun e h => (hfilter.error_iff e).2 ?fault'
    case total' =>
      refine hfilter.total.imp .single ?_
      rintro ⟨e, he⟩
      exact ⟨e, .single hv' he⟩
    case fits' =>
      cases h with
      | single h => exact h
      | array => exact absurd rfl (hv' _)
    case fault' =>
      cases h with
      | single _ h => exact h
      | item => exact absurd rfl (hv' _)

/-- The grammar of filters and the choice of what is reported, for values with the fields of their objects in
order, as all values are that a text writes.  A value is read as a filter just if it is an object whose
entries all fit and of which at most three list values of a tag; else the fault of the first entry that does
not fit is reported, and only where all fit that there are too many tags.  A group is read just from a filter
or from an array of filters; else the fault of the first item that is none is reported. -/
theorem ofJson_grammar (maxLimit : UInt64) :
    (∀ v : Json, v.InByteOrder →
      ((∃ f, Filter.ofJson maxLimit v = .ok f) ↔ Filter.Fits v) ∧
      (∀ e, Filter.ofJson maxLimit v = .error e ↔ Filter.Fault v e) ∧
      ((∃ g, ofJson maxLimit v = .ok g) ↔ Fits v) ∧
      ∀ e, ofJson maxLimit v = .error e ↔ Fault v e) ∧
    ∀ text v, Json.parse? text = some v → v.InByteOrder := by
  refine ⟨fun v hv => ?_, fun text v => Json.inByteOrder_of_parse?⟩
  have hfilter := Filter.decided_ofJson maxLimit hv
  have hgroup := decided_ofJson maxLimit hv
  exact ⟨hfilter.ok_iff, hfilter.error_iff, hgroup.ok_iff, hgroup.error_iff⟩

/-- An object at fault in three entries: the empty array does not hide the name that comes first, and the
size of the identifier comes before the bound in time. -/
theorem ofJson_grammar_threeFaults :
    let short : String × Json := ("authors", .array [.string "ABab", .null])
    let late : String × Json := ("since", .string "yesterday")
    let v := Json.ofFields [late, short, ("#title", .array [])]
    let w := Json.ofFields [late, short]
    v.InByteOrder ∧ w.InByteOrder ∧ Filter.Fault v (.unindexedTag "#title") ∧ Filter.Fault w (.id (.size 2)) ∧
      Fault (.array [.ofFields [], w, v]) (.id (.size 2)) := by
  intro short late v w
  have hlate : late.2.InByteOrder := .string
  have hshort : short.2.InByteOrder :=
    .array (List.forall_mem_cons.2 ⟨.string, List.forall_mem_singleton.2 .null⟩)
  have hv : v.InByteOrder := Json.hereditary_inByteOrder.ofFields <|
    List.forall_mem_cons.2 ⟨hlate, List.forall_mem_cons.2 ⟨hshort, List.forall_mem_singleton.2 (.array nofun)⟩⟩
  have hw : w.InByteOrder := Json.hereditary_inByteOrder.ofFields <|
    List.forall_mem_cons.2 ⟨hlate, List.forall_mem_singleton.2 hshort⟩
  have hgroup : (Json.array [.ofFields [], w, v]).InByteOrder := .array <|
    List.forall_mem_cons.2 ⟨Json.hereditary_inByteOrder.ofFields nofun,
      List.forall_mem_cons.2 ⟨hw, List.forall_mem_singleton.2 hv⟩⟩
  obtain ⟨hgrammar, -⟩ := ofJson_grammar 5
  refine ⟨hv, hw, ((hgrammar v hv).2.1 _).1 ?_, ((hgrammar w hw).2.1 _).1 ?_, ((hgrammar _ hgroup).2.2.2 _).1 ?_⟩
  all_goals decide +kernel

end FilterGroup

end EventRelay
