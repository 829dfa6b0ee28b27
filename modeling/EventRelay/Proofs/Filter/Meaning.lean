import EventRelay.Proofs.Filter.Clauses
import EventRelay.Proofs.Json.Names
import EventRelay.Proofs.Text.Spelling
/-!
# What a filter in JSON asks for

The direct reading of an object that is a filter: no field lists nothing, the time lies in the range, and
for each field that lists values one of the items denotes the event's value.  The filter that is read from
the object accepts just the events that the object asks for, and a group accepts what one of its objects
asks for, also where filters that can never match were left out.

A field is read into a clause that admits what the field asks for, and as each name stands once, no clause
takes the place of another.

Main statements: `Clause.reads_of_ofField`, `Filter.accepts_iff_asksFor` and `FilterGroup.accepts_json`.
-/

namespace EventRelay

namespace Json

/-! ### The direct reading -/

/-- Whether an item is the hexadecimal text of an identifier's bytes. -/
def WritesId (item : Json) (bytes : Bytes) : Prop :=
  bytes.length = 32 ∧ ∃ s, item = .string s ∧ Hex.Spells (Utf8.encode s) bytes

/-- Whether an item is a text with these bytes. -/
def WritesText (item : Json) (bytes : Bytes) : Prop := ∃ s, item = .string s ∧ Utf8.encode s = bytes

/-- Whether an item denotes a value of tags of this name. -/
def WritesTagValue (name : UInt8) (item : Json) (bytes : Bytes) : Prop :=
  if Tag.holdsId name then item.WritesId bytes else item.WritesText bytes

/-- Whether an object, read as a filter, asks for an event. -/
structure AsksFor (v : Json) (e : Event) : Prop where
  nonempty : ∀ name, v.get? name ≠ some (.array [])
  since_le : ((v.get? "since").bind unsigned?).getD 0 ≤ e.createdAt
  le_until : e.createdAt ≤ ((v.get? "until").bind unsigned?).getD 0xFFFFFFFFFFFFFFFF
  ids : ∀ items, v.get? "ids" = some (.array items) → ∃ item ∈ items, item.WritesId e.id.bytes
  authors : ∀ items, v.get? "authors" = some (.array items) → ∃ item ∈ items, item.WritesId e.author.bytes
  kinds : ∀ items, v.get? "kinds" = some (.array items) → .ofWord e.kind ∈ items
  tags : ∀ text name items, Utf8.encode text = [name] → v.get? ("#" ++ text) = some (.array items) →
    ∃ tag ∈ e.tags, tag.name = name ∧ ∃ item ∈ items, item.WritesTagValue name tag.value

theorem isEmptyArray_iff {v : Json} : v.isEmptyArray = true ↔ v = .array [] := by
  cases v with
  | array items => cases items <;> simp [isEmptyArray]
  | _ => simp [isEmptyArray]

theorem unsigned?_eq_some_iff {v : Json} {n : UInt64} : v.unsigned? = some n ↔ v = .ofWord n := by
  constructor
  · intro h
    cases v with
    | number x =>
      cases x with
      | integer negative m =>
        cases negative with
        | true => cases h
        | false =>
          have hword : Decimal.word? m = some n := h
          rw [Decimal.word?] at hword
          split at hword
          · rename_i hlt
            cases hword
            rw [ofWord, UInt64.toNat_ofNat_of_lt' hlt]
            rfl
          · cases hword
      | decimal => cases h
    | _ => cases h
  · rintro rfl
    have hlt : n.toNat < UInt64.size := n.toNat_lt
    show Decimal.word? n.toNat = some n
    rw [Decimal.word?, if_pos hlt, UInt64.ofNat_toNat]

end Json

namespace Filter

namespace Clause

variable {field : Field} {key : String} {item v : Json} {c : Clause}

/-! ### Items -/

theorem writesId_iff {i : Id} (h : readId item = .ok i) {bytes : Bytes} :
    item.WritesId bytes ↔ bytes = i.bytes := by
  cases item with
  | string s =>
    simp only [readId] at h
    split at h
    · rename_i j hj
      cases h
      have hspells : Hex.Spells (Utf8.encode s) i.bytes := Id.ofHex_eq_ok_iff.1 hj
      constructor
      · rintro ⟨-, t, ht, hbytes⟩
        cases ht
        -- a text spells one sequence of bytes
        have hread := Hex.decode_eq_ok_iff.2 hbytes
        rw [Hex.decode_eq_ok_iff.2 hspells] at hread
        exact (Except.ok.inj hread).symm
      · rintro rfl
        exact ⟨i.length_bytes, s, rfl, hspells⟩
    · cases h
  | _ => cases h

theorem writesText_iff {text : Bytes} (h : readText item = .ok text) {bytes : Bytes} :
    item.WritesText bytes ↔ bytes = text := by
  cases item with
  | string s =>
    simp only [readText] at h
    split at h
    · cases h
    · cases h
      constructor
      · rintro ⟨t, ht, rfl⟩
        cases ht
        rfl
      · rintro rfl
        exact ⟨s, rfl, rfl⟩
  | _ => cases h

theorem writesTagValue_iff {name : UInt8} {value : Bytes} (h : readTagValue name item = .ok value)
    {bytes : Bytes} : item.WritesTagValue name bytes ↔ bytes = value := by
  rw [readTagValue] at h
  rw [Json.WritesTagValue]
  split at h
  · rename_i hname
    rw [if_pos hname]
    cases hi : readId item with
    | error e => rw [hi] at h; cases h
    | ok i =>
      rw [hi] at h
      cases h
      exact writesId_iff hi
  · rename_i hname
    rw [if_neg hname]
    exact writesText_iff h

theorem eq_ofWord_iff {n : UInt64} (h : readUnsigned key item = .ok n) {m : UInt64} :
    item = .ofWord m ↔ m = n := by
  rw [readUnsigned] at h
  split at h
  · rename_i k hk
    cases h
    rw [← Json.unsigned?_eq_some_iff, hk, Option.some.injEq, eq_comm]
  · cases h

/-- Where an item that can be read denotes just what it is read into, so do the items of a list. -/
theorem mem_ofList_iff {α : Type} {cmp : α → α → Ordering} [Std.TransCmp cmp] [Std.LawfulEqCmp cmp]
    {read : Json → Except FilterError α} {items : List Json} {values : List α}
    (h : items.mapM read = .ok values) {Writes : Json → α → Prop}
    (hread : ∀ {item a}, read item = .ok a → ∀ b, Writes item b ↔ b = a) {a : α} :
    a ∈ (OrderedSet.ofList values : OrderedSet α cmp) ↔ ∃ item ∈ items, Writes item a := by
  rw [OrderedSet.mem_ofList]
  constructor
  · intro ha
    obtain ⟨item, hitem, hok⟩ := exists_of_mem_mapM h ha
    exact ⟨item, hitem, (hread hok a).2 rfl⟩
  · rintro ⟨item, hitem, hwrites⟩
    obtain ⟨b, hb, hok⟩ := exists_mem_of_mapM h hitem
    rw [(hread hok a).1 hwrites]
    exact hb

/-! ### Fields -/

/-- What the value of a field is like that can be read, and the clause that it becomes. -/
inductive Reads : Field → Json → Clause → Prop
  | nothing {x : Field} : Reads x (.array []) .nothing
  | ids {items set} : items ≠ [] → (∀ i : Id, i ∈ set ↔ ∃ item ∈ items, item.WritesId i.bytes) →
      Reads .ids (.array items) (.ids set)
  | authors {items set} : items ≠ [] → (∀ i : Id, i ∈ set ↔ ∃ item ∈ items, item.WritesId i.bytes) →
      Reads .authors (.array items) (.authors set)
  | kinds {items set} : items ≠ [] → (∀ k : UInt64, k ∈ set ↔ ∃ item ∈ items, item = .ofWord k) →
      Reads .kinds (.array items) (.kinds set)
  | tag {name items values} : items ≠ [] →
      (∀ b : Bytes, b ∈ values ↔ ∃ item ∈ items, item.WritesTagValue name b) →
      Reads (.tag name) (.array items) (.tag name values)
  | since {time} : Reads .since (.ofWord time) (.since time)
  | upTo {time} : Reads .upTo (.ofWord time) (.upTo time)
  | limit {count} : Reads .limit (.ofWord count) (.limit count)

/-- A field that lists values holds an array, and its items can be read. -/
theorem exists_of_readItems {α : Type} {read : Json → Except FilterError α} {k : List α → Clause}
    (h : (do return k (← (← items key v).mapM read)) = Except.ok c) (hnonempty : v ≠ .array []) :
    ∃ l values, l ≠ [] ∧ v = .array l ∧ l.mapM read = .ok values ∧ c = k values := by
  obtain ⟨l, hl, h⟩ := exists_of_bind_eq_ok h
  obtain ⟨values, hvalues, h⟩ := exists_of_bind_eq_ok h
  cases h
  cases v with
  | array items =>
    cases hl
    exact ⟨l, values, fun hnil => hnonempty (congrArg Json.array hnil), rfl, hvalues, rfl⟩
  | _ => cases hl

theorem mem_ids_iff {l : List Json} {values : List Id} (h : l.mapM readId = .ok values) (i : Id) :
    i ∈ (OrderedSet.ofList values : IdSet) ↔ ∃ item ∈ l, item.WritesId i.bytes :=
  mem_ofList_iff h fun hok _ => (writesId_iff hok).trans Id.bytes_inj

theorem reads_of_ofValue (h : ofValue key v field = .ok c) (hnonempty : v ≠ .array []) :
    Reads field v c := by
  cases field with
  | ids =>
    obtain ⟨l, values, hne, rfl, hvalues, rfl⟩ := exists_of_readItems h hnonempty
    exact .ids hne (mem_ids_iff hvalues)
  | authors =>
    obtain ⟨l, values, hne, rfl, hvalues, rfl⟩ := exists_of_readItems h hnonempty
    exact .authors hne (mem_ids_iff hvalues)
  | kinds =>
    obtain ⟨l, values, hne, rfl, hvalues, rfl⟩ := exists_of_readItems h hnonempty
    exact .kinds hne fun _ => mem_ofList_iff hvalues fun hok _ => eq_ofWord_iff hok
  | tag name =>
    obtain ⟨l, values, hne, rfl, hvalues, rfl⟩ := exists_of_readItems h hnonempty
    exact .tag hne fun _ => mem_ofList_iff hvalues fun hok _ => writesTagValue_iff hok
  | since | upTo | limit =>
    obtain ⟨n, hn, h⟩ := exists_of_bind_eq_ok h
    cases h
    cases (eq_ofWord_iff hn).2 rfl
    constructor

/-- A field that can be read has a name and a value of it. -/
theorem reads_of_ofField (h : ofField (key, v) = .ok c) :
    ∃ field, Field.ofName key = .ok field ∧ Reads field v c := by
  obtain ⟨field, hfield, h⟩ := exists_of_bind_eq_ok h
  refine ⟨field, hfield, ?_⟩
  split at h
  · rename_i hempty
    cases h
    have hv : v = .array [] := Json.isEmptyArray_iff.1 hempty
    rw [hv]
    exact .nothing
  · rename_i hnot
    exact reads_of_ofValue h fun hv => hnot (Json.isEmptyArray_iff.2 hv)

theorem Reads.eq_of_field? {field other : Field} {v : Json} {c : Clause} (h : Reads field v c)
    (hc : c.field? = some other) : other = field := by
  cases h <;> cases hc <;> rfl

end Clause

/-! ### Names of fields -/

namespace Field

/-- The names under which a field can stand. -/
def HasName : Field → String → Prop
  | .ids, key => key = "ids"
  | .authors, key => key = "authors"
  | .kinds, key => key = "kinds"
  | .since, key => key = "since"
  | .upTo, key => key = "until"
  | .limit, key => key = "limit"
  | .tag name, key => ∃ text, key = "#" ++ text ∧ Utf8.encode text = [name]

variable {field : Field} {key key' : String}

theorem hasName_of_ofName (h : ofName key = .ok field) : field.HasName key := by
  rw [ofName] at h
  split at h
  · rename_i rest hkey
    split at h
    · rename_i byte hbyte
      cases h
      refine ⟨String.ofList rest, ?_, hbyte⟩
      rw [← String.toList_inj, hkey]
      simp
    · cases h
  · split_ifs at h with hids hauthors hkinds hsince huntil hlimit
    all_goals cases h; assumption

theorem ofName_hash (text : String) :
    ofName ("#" ++ text) =
      match Utf8.encode text with
      | [byte] => .ok (.tag byte)
      | _ => .error (.unindexedTag ("#" ++ text)) := by
  have htoList : ("#" ++ text).toList = '#' :: text.toList := by simp
  rcases hbytes : Utf8.encode text with _ | ⟨byte, _ | ⟨next, rest⟩⟩
  all_goals simp only [ofName, htoList, String.ofList_toList, hbytes]

theorem ofName_tag {text : String} {name : UInt8} (h : Utf8.encode text = [name]) :
    ofName ("#" ++ text) = .ok (.tag name) := by
  rw [ofName_hash, h]

/-- A field has one name. -/
theorem HasName.unique (h : field.HasName key) (h' : field.HasName key') : key = key' := by
  cases field with
  | tag name =>
    obtain ⟨text, rfl, htext⟩ := h
    obtain ⟨text', rfl, htext'⟩ := h'
    rw [Utf8.encode_injective (htext.trans htext'.symm)]
  | _ => exact h.trans h'.symm

end Field

/-- Each name stands once in an object and each field has one name, so its clauses restrict different
fields. -/
theorem Clause.pairwise_field?_of_mapM {fields : List (String × Json)} (hnodup : (fields.map Prod.fst).Nodup)
    {clauses : List Clause} (h : fields.mapM ofField = .ok clauses) :
    clauses.Pairwise fun c d => ∀ field, c.field? = some field → d.field? ≠ some field := by
  refine pairwise_of_mapM h (List.pairwise_map.1 hnodup) fun hne hc hd x hcx hdx => ?_
  obtain ⟨field, hname, hreads⟩ := reads_of_ofField hc
  obtain ⟨other, hother, hreads'⟩ := reads_of_ofField hd
  cases hreads.eq_of_field? hcx
  cases hreads'.eq_of_field? hdx
  exact hne ((Field.hasName_of_ofName hname).unique (Field.hasName_of_ofName hother))

/-! ### Objects -/

section Objects

variable {f : Filter} {c : Clause} {e : Event}

variable {fields : List (String × Json)} {key : String} {v : Json} {field : Field}

/-- What an object asks for is admitted by the clauses of its fields. -/
theorem Clause.Reads.admits (h : Reads field v c) (hname : field.HasName key)
    (hget : (Json.object fields).get? key = some v) (hasks : (Json.object fields).AsksFor e) :
    c.Admits e := by
  cases h with
  | nothing => exact absurd hget (hasks.nonempty key)
  | ids _ hset =>
    cases hname
    exact (hset e.id).2 (hasks.ids _ hget)
  | authors _ hset =>
    cases hname
    exact (hset e.author).2 (hasks.authors _ hget)
  | kinds _ hset =>
    cases hname
    exact (hset e.kind).2 ⟨_, hasks.kinds _ hget, rfl⟩
  | tag _ hvalues =>
    obtain ⟨text, rfl, htext⟩ := hname
    obtain ⟨tag, htag, rfl, hitem⟩ := hasks.tags text _ _ htext hget
    exact ⟨tag.value, (hvalues _).2 hitem, htag⟩
  | @since time =>
    cases hname
    have hsince := hasks.since_le
    rw [hget, Option.bind_some, Json.unsigned?_eq_some_iff.2 rfl] at hsince
    exact hsince
  | @upTo time =>
    cases hname
    have huntil := hasks.le_until
    rw [hget, Option.bind_some, Json.unsigned?_eq_some_iff.2 rfl] at huntil
    exact huntil
  | limit => trivial

/-- Where all fields are read into clauses that admit an event, the object asks for it. -/
theorem asksFor_of_admits (h : ∀ key v, (Json.object fields).get? key = some v →
    ∃ field c, Field.ofName key = .ok field ∧ Clause.Reads field v c ∧ c.Admits e) :
    (Json.object fields).AsksFor e where
  nonempty key hget := by
    obtain ⟨field, c, -, hreads, hadmits⟩ := h key _ hget
    generalize hv : Json.array [] = v at hreads
    cases hreads with
    | nothing => exact hadmits
    | ids hne | authors hne | kinds hne | tag hne => exact hne (Json.array.inj hv).symm
    | since | upTo | limit => cases hv
  since_le := by
    cases hget : (Json.object fields).get? "since" with
    | none => exact UInt64.zero_le
    | some v =>
      obtain ⟨field, c, hname, hreads, hadmits⟩ := h _ _ hget
      cases hname
      cases hreads with
      | nothing => cases hadmits
      | since =>
        rw [Option.bind_some, Json.unsigned?_eq_some_iff.2 rfl]
        exact hadmits
  le_until := by
    cases hget : (Json.object fields).get? "until" with
    | none => exact le_unbounded
    | some v =>
      obtain ⟨field, c, hname, hreads, hadmits⟩ := h _ _ hget
      cases hname
      cases hreads with
      | nothing => cases hadmits
      | upTo =>
        rw [Option.bind_some, Json.unsigned?_eq_some_iff.2 rfl]
        exact hadmits
  ids items hget := by
    obtain ⟨field, c, hname, hreads, hadmits⟩ := h _ _ hget
    cases hname
    cases hreads with
    | nothing => cases hadmits
    | ids _ hset => exact (hset e.id).1 hadmits
  authors items hget := by
    obtain ⟨field, c, hname, hreads, hadmits⟩ := h _ _ hget
    cases hname
    cases hreads with
    | nothing => cases hadmits
    | authors _ hset => exact (hset e.author).1 hadmits
  kinds items hget := by
    obtain ⟨field, c, hname, hreads, hadmits⟩ := h _ _ hget
    cases hname
    cases hreads with
    | nothing => cases hadmits
    | kinds _ hset =>
      obtain ⟨item, hitem, rfl⟩ := (hset e.kind).1 hadmits
      exact hitem
  tags text name items htext hget := by
    obtain ⟨field, c, hname, hreads, hadmits⟩ := h _ _ hget
    cases (Field.ofName_tag htext).symm.trans hname
    cases hreads with
    | nothing => cases hadmits
    | tag _ hvalues =>
      obtain ⟨value, hvalue, htag⟩ := hadmits
      exact ⟨_, htag, rfl, (hvalues value).1 hvalue⟩

/-- A filter accepts just the events that its object asks for. -/
theorem accepts_iff_asksFor {maxLimit : UInt64} {v : Json} (hv : v.NamesOnce)
    (h : ofJson maxLimit v = .ok f) : f.accepts e = true ↔ v.AsksFor e := by
  cases v with
  | object fields =>
    obtain ⟨clauses, hclauses, h⟩ := exists_of_bind_eq_ok h
    have hnodup := hv.nodup
    have hget : ∀ {key v}, (Json.object fields).get? key = some v ↔ (key, v) ∈ fields :=
      Json.field?_eq_some_iff hnodup
    have hdiffer := Clause.pairwise_field?_of_mapM hnodup hclauses
    have haccepts : f.accepts e = true ↔ ∀ c ∈ clauses, c.Admits e := by
      have hfold := accepts_foldl (e := e) (fun c _ field _ => lacks_unrestricted) hdiffer
      rw [accepts_unrestricted] at hfold
      simp only [ofClauses] at h
      split at h
      · cases h
      · cases h
        exact hfold.trans (and_iff_right rfl)
    rw [haccepts]
    constructor
    · intro hadmits
      refine asksFor_of_admits fun key v hkey => ?_
      obtain ⟨c, hc, hread⟩ := exists_mem_of_mapM hclauses (hget.1 hkey)
      obtain ⟨field, hname, hreads⟩ := Clause.reads_of_ofField hread
      exact ⟨field, c, hname, hreads, hadmits c hc⟩
    · intro hasks c hc
      obtain ⟨⟨key, v⟩, hkey, hread⟩ := exists_of_mem_mapM hclauses hc
      obtain ⟨field, hname, hreads⟩ := Clause.reads_of_ofField hread
      exact hreads.admits (Field.hasName_of_ofName hname) (hget.2 hkey) hasks
  | _ => cases h

end Objects

end Filter

namespace FilterGroup

variable {e : Event}

/-- A filter that can never match may be left out. -/
theorem accepts_ofFilters {fs : List Filter} :
    (ofFilters fs).accepts e = true ↔ ∃ f ∈ fs, f.accepts e = true := by
  rw [accepts, ofFilters, List.any_eq_true]
  constructor
  · rintro ⟨f, hf, haccepts⟩
    exact ⟨f, (List.mem_filter.1 hf).1, haccepts⟩
  · rintro ⟨f, hf, haccepts⟩
    refine ⟨f, List.mem_filter.2 ⟨hf, ?_⟩, haccepts⟩
    rw [(Filter.accepts_iff.1 haccepts).1]
    rfl

theorem accepts_iff_exists {maxLimit : UInt64} {items : List Json} {g : FilterGroup}
    (hitems : (Json.array items).NamesOnce) (h : ofJson maxLimit (.array items) = .ok g) :
    g.accepts e = true ↔ ∃ item ∈ items, item.AsksFor e := by
  obtain ⟨fs, hfs, h⟩ := exists_of_bind_eq_ok h
  cases h
  rw [accepts_ofFilters]
  constructor
  · rintro ⟨f, hf, haccepts⟩
    obtain ⟨item, hitem, hread⟩ := exists_of_mem_mapM hfs hf
    exact ⟨item, hitem, (Filter.accepts_iff_asksFor (hitems.of_mem hitem) hread).1 haccepts⟩
  · rintro ⟨item, hitem, hasks⟩
    obtain ⟨f, hf, hread⟩ := exists_mem_of_mapM hfs hitem
    exact ⟨f, hf, (Filter.accepts_iff_asksFor (hitems.of_mem hitem) hread).2 hasks⟩

/-- The filter that is read from an object accepts just what the object asks for, and the group that is
read from an array just what one of its objects asks for. -/
theorem accepts_json (maxLimit : UInt64) (e : Event) :
    (∀ v f, v.NamesOnce → Filter.ofJson maxLimit v = .ok f → (f.accepts e = true ↔ v.AsksFor e))
    ∧ ∀ items g, (Json.array items).NamesOnce → ofJson maxLimit (.array items) = .ok g →
      (g.accepts e = true ↔ ∃ item ∈ items, item.AsksFor e) :=
  ⟨fun _ _ => Filter.accepts_iff_asksFor, fun _ _ => accepts_iff_exists⟩

/-- An object that asks for answers to an event, which it names in capitals. -/
def answersAsked : Json := .ofFields
  [("since", .ofNat 5), ("kinds", .array [.ofNat 7, .ofNat 1, .ofNat 7]),
    ("#e", .array [.string "ABABABABABABABABABABABABABABABABABABABABABABABABABABABABABABABAB"])]

/-- An object that asks for nothing. -/
def nothingAsked : Json := .ofFields [("ids", .array [])]

theorem accepts_json_answersAsked :
    let asked : Bytes := List.replicate 32 0xAB
    let author : Id := ⟨List.replicate 32 0x11, List.length_replicate⟩
    let answer : Event := ⟨author, author, 5, 1, none, [⟨0x74, [0x61]⟩, ⟨0x65, asked⟩]⟩
    let f : Filter := { Filter.unrestricted with
      kinds := some (.ofList [1, 7]), tags := [(0x65, .ofList [asked])], since := 5 }
    answersAsked.NamesOnce ∧ Filter.ofJson Filter.unbounded answersAsked = .ok f
      ∧ answersAsked.AsksFor answer
      ∧ (Json.array [nothingAsked, answersAsked]).NamesOnce
      ∧ ofJson Filter.unbounded (.array [nothingAsked, answersAsked]) = .ok ⟨[f]⟩
      ∧ ∃ item ∈ [nothingAsked, answersAsked], item.AsksFor answer := by
  intro asked author answer f
  have hnames : answersAsked.NamesOnce := by
    refine Json.namesOnce_ofFields (List.forall_mem_cons.2 ⟨.number, List.forall_mem_cons.2 ⟨.array ?_, ?_⟩⟩)
    · exact List.forall_mem_cons.2 ⟨.number, List.forall_mem_cons.2 ⟨.number, List.forall_mem_singleton.2 .number⟩⟩
    · exact List.forall_mem_singleton.2 (.array (List.forall_mem_singleton.2 .string))
  have hnothing : nothingAsked.NamesOnce :=
    Json.namesOnce_ofFields (List.forall_mem_singleton.2 (.array nofun))
  have hgroup : (Json.array [nothingAsked, answersAsked]).NamesOnce :=
    .array (List.forall_mem_cons.2 ⟨hnothing, List.forall_mem_singleton.2 hnames⟩)
  have hf : Filter.ofJson Filter.unbounded answersAsked = .ok f := by decide +kernel
  have hg : ofJson Filter.unbounded (.array [nothingAsked, answersAsked]) = .ok ⟨[f]⟩ := by decide +kernel
  have haccepts : f.accepts answer = true := by decide +kernel
  obtain ⟨hfilter, harray⟩ := accepts_json Filter.unbounded answer
  refine ⟨hnames, hf, (hfilter _ _ hnames hf).1 haccepts, hgroup, hg, (harray _ _ hgroup hg).1 ?_⟩
  decide +kernel

end FilterGroup

end EventRelay
