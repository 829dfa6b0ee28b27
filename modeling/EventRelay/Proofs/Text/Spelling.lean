import EventRelay.Proofs.Reading
/-!
# What text spells

A text spells bytes in hexadecimal if it is made of pairs of digits, of small letters or capitals alike;
reading finds just these bytes.  As bytes of UTF-8 a text is spelled in one way only.

A text that spells nothing, or something else than an identifier, has a first fault, and that is reported.

Main statements: `Hex.decode_eq_ok_iff`, `Id.ofHex_eq_ok_iff`, `Id.decided_ofHexBytes` and
`Utf8.encode_injective`.
-/

namespace EventRelay

namespace Hex

/-- The digits in the order of their values. -/
def smallDigits : Bytes := Utf8.encode "0123456789abcdef"

def capitalDigits : Bytes := Utf8.encode "0123456789ABCDEF"

/-- Whether a byte is a digit of this value. -/
def IsDigit (b value : UInt8) : Prop :=
  smallDigits[value.toNat]? = some b ∨ capitalDigits[value.toNat]? = some b

instance {b value : UInt8} : Decidable (IsDigit b value) :=
  inferInstanceAs (Decidable (_ ∨ _))

/-- Whether a text is made of pairs of digits, one pair for each of these bytes. -/
inductive Spells : Bytes → Bytes → Prop
  | nil : Spells [] []
  | pair {a b high low text bytes} : IsDigit a high → IsDigit b low → Spells text bytes →
      Spells (a :: b :: text) ((high * 16 + low) :: bytes)

/-- The digits at one place of the two lists have the value of the place. -/
theorem digit?_of_isDigit {b value : UInt8} (h : IsDigit b value) : digit? b = some value := by
  have key : ∀ n : Fin 16, (smallDigits[n.val]?.bind digit?) = some (UInt8.ofNat n)
      ∧ (capitalDigits[n.val]?.bind digit?) = some (UInt8.ofNat n) := by decide +kernel
  have hlt : value.toNat < 16 := by
    rcases h with h | h <;> exact (List.getElem?_eq_some_iff.1 h).1
  obtain ⟨hsmall, hcapital⟩ := key ⟨value.toNat, hlt⟩
  simp only [UInt8.ofNat_toNat] at hsmall hcapital
  rcases h with h | h
  · rwa [h] at hsmall
  · rwa [h] at hcapital

theorem digit?_eq_some_iff {b value : UInt8} : digit? b = some value ↔ IsDigit b value := by
  refine ⟨fun h => ?_, digit?_of_isDigit⟩
  have key : ∀ n : Fin 256, ∀ v ∈ digit? (UInt8.ofNat n), IsDigit (UInt8.ofNat n) v := by decide +kernel
  have hb := key ⟨b.toNat, b.toNat_lt⟩ value
  simp only [UInt8.ofNat_toNat] at hb
  exact hb h

theorem readDigit_eq_ok_iff {offset : Nat} {b value : UInt8} :
    readDigit offset b = .ok value ↔ IsDigit b value := by
  rw [readDigit, ← digit?_eq_some_iff]
  cases digit? b with
  | none => simp
  | some v => simp

theorem Spells.even {text bytes : Bytes} (h : Spells text bytes) : text.length % 2 = 0 := by
  induction h with
  | nil => rfl
  | pair _ _ _ ih =>
    rw [List.length_cons, List.length_cons]
    omega

theorem decodeFrom_eq_ok_iff {offset : Nat} {text bytes : Bytes} :
    decodeFrom offset text = .ok bytes ↔ Spells text bytes := by
  constructor
  · intro h
    fun_induction decodeFrom offset text generalizing bytes with
    | case1 =>
      cases h
      exact .nil
    | case2 => cases h
    | case3 offset a b rest ih =>
      obtain ⟨high, hhigh, h⟩ := exists_of_bind_eq_ok h
      obtain ⟨low, hlow, h⟩ := exists_of_bind_eq_ok h
      obtain ⟨tail, htail, h⟩ := exists_of_bind_eq_ok h
      cases h
      exact .pair (readDigit_eq_ok_iff.1 hhigh) (readDigit_eq_ok_iff.1 hlow) (ih htail)
  · intro h
    induction h generalizing offset with
    | nil => rfl
    | pair hhigh hlow _ ih =>
      rw [decodeFrom, readDigit_eq_ok_iff.2 hhigh, readDigit_eq_ok_iff.2 hlow, ih]
      rfl

/-- Reading finds just the bytes that a text spells. -/
theorem decode_eq_ok_iff {text bytes : Bytes} : decode text = .ok bytes ↔ Spells text bytes := by
  rw [decode]
  split
  · rename_i hodd
    constructor
    · intro h
      cases h
    · intro h
      rw [h.even] at hodd
      cases hodd
  · exact decodeFrom_eq_ok_iff

/-! ### Texts that spell nothing -/

/-- Whether a byte is a digit, of whatever value. -/
def HasValue (b : UInt8) : Prop := b ∈ Utf8.encode "0123456789abcdefABCDEF"

instance {b : UInt8} : Decidable (HasValue b) := inferInstanceAs (Decidable (_ ∈ _))

theorem hasValue_iff {b : UInt8} : HasValue b ↔ ∃ value, digit? b = some value := by
  have key : ∀ n : Fin 256, HasValue (UInt8.ofNat n) ↔ (digit? (UInt8.ofNat n)).isSome = true := by
    decide +kernel
  have hb := key ⟨b.toNat, b.toNat_lt⟩
  simp only [UInt8.ofNat_toNat] at hb
  rw [hb, Option.isSome_iff_exists]

theorem readDigit_of_hasValue (offset : Nat) {b : UInt8} (h : HasValue b) :
    ∃ value, readDigit offset b = .ok value := by
  obtain ⟨value, hvalue⟩ := hasValue_iff.1 h
  exact ⟨value, by rw [readDigit, hvalue]⟩

theorem readDigit_of_not_hasValue {offset : Nat} {b : UInt8} (h : ¬ HasValue b) :
    readDigit offset b = .error (.badDigit b offset) := by
  rw [readDigit]
  cases hb : digit? b with
  | none => rfl
  | some value => exact absurd (hasValue_iff.2 ⟨value, hb⟩) h

/-- Whether a text is made of pairs of digits. -/
structure IsPaired (text : Bytes) : Prop where
  even : text.length % 2 = 0
  hasValue : ∀ b ∈ text, HasValue b

/-- Why a text is not made of pairs of digits: an odd length comes before anything else, then the first byte
that is no digit. -/
inductive Fault : Bytes → HexError → Prop
  | odd {text} : text.length % 2 = 1 → Fault text .oddLength
  | digit {before b after} : (before ++ b :: after).length % 2 = 0 → (∀ d ∈ before, HasValue d) →
      ¬ HasValue b → Fault (before ++ b :: after) (.badDigit b before.length)

/-- Digits are read up to where something else stands. -/
theorem decodeFrom_of_hasValue {offset : Nat} {text : Bytes} (heven : text.length % 2 = 0)
    (h : ∀ b ∈ text, HasValue b) :
    ∃ bytes, decodeFrom offset text = .ok bytes ∧ 2 * bytes.length = text.length := by
  fun_induction decodeFrom offset text with
  | case1 => exact ⟨[], rfl, rfl⟩
  | case2 => cases heven
  | case3 offset a b rest ih =>
    obtain ⟨ha, hb, hrest⟩ := by simpa using h
    obtain ⟨high, hhigh⟩ := readDigit_of_hasValue offset ha
    obtain ⟨low, hlow⟩ := readDigit_of_hasValue (offset + 1) hb
    rw [List.length_cons, List.length_cons] at heven
    obtain ⟨tail, htail, hlength⟩ := ih (by omega) hrest
    refine ⟨(high * 16 + low) :: tail, by rw [hhigh, hlow, htail]; rfl, ?_⟩
    rw [List.length_cons, List.length_cons, List.length_cons]
    omega

theorem decodeFrom_of_badDigit {b : UInt8} {after : Bytes} (hb : ¬ HasValue b) (offset : Nat) :
    ∀ {before : Bytes}, (before ++ b :: after).length % 2 = 0 → (∀ d ∈ before, HasValue d) →
      decodeFrom offset (before ++ b :: after) = .error (.badDigit b (offset + before.length))
  | [], heven, _ => by
    cases after with
    | nil => cases heven
    | cons c rest =>
      rw [List.nil_append, decodeFrom, readDigit_of_not_hasValue hb]
      rfl
  | [a], _, hbefore => by
    obtain ⟨high, hhigh⟩ := readDigit_of_hasValue offset (hbefore a List.mem_cons_self)
    rw [List.singleton_append, decodeFrom, hhigh, readDigit_of_not_hasValue hb]
    rfl
  | a :: a' :: before, heven, hbefore => by
    obtain ⟨ha, ha', hbefore⟩ := by simpa using hbefore
    obtain ⟨high, hhigh⟩ := readDigit_of_hasValue offset ha
    obtain ⟨low, hlow⟩ := readDigit_of_hasValue (offset + 1) ha'
    have heven : (before ++ b :: after).length % 2 = 0 := by
      rw [List.cons_append, List.cons_append, List.length_cons, List.length_cons] at heven
      omega
    have htail := decodeFrom_of_badDigit hb (offset + 2) heven hbefore
    rw [List.cons_append, List.cons_append, decodeFrom, hhigh, hlow, htail, List.length_cons, List.length_cons,
      Nat.add_right_comm offset 2]
    rfl

/-- Every text is made of pairs of digits or is at fault. -/
theorem isPaired_or_fault (text : Bytes) : IsPaired text ∨ ∃ e, Fault text e := by
  rcases Nat.mod_two_eq_zero_or_one text.length with heven | hodd
  · rcases forall_or_exists_first HasValue text with h | ⟨before, b, after, rfl, hbefore, hb⟩
    · exact .inl ⟨heven, h⟩
    · exact .inr ⟨_, .digit heven hbefore hb⟩
  · exact .inr ⟨_, .odd hodd⟩

theorem decode_of_isPaired {text : Bytes} (h : IsPaired text) :
    ∃ bytes, decode text = .ok bytes ∧ 2 * bytes.length = text.length := by
  rw [decode, h.even]
  exact decodeFrom_of_hasValue h.even h.hasValue

theorem decode_of_fault {text : Bytes} {e : HexError} (h : Fault text e) : decode text = .error e := by
  rw [decode]
  cases h with
  | odd hodd => rw [if_pos hodd]
  | digit heven hbefore hb =>
    rw [if_neg (by omega), decodeFrom_of_badDigit hb 0 heven hbefore, Nat.zero_add]

/-- A text that is not made of pairs of digits gives its fault. -/
theorem decided_decode (text : Bytes) : Decided (decode text) (IsPaired text) (Fault text) := by
  refine .of_total (isPaired_or_fault text) (fun h => ?_) fun e => decode_of_fault
  obtain ⟨bytes, hbytes, -⟩ := decode_of_isPaired h
  exact ⟨bytes, hbytes⟩

end Hex

namespace Id

theorem ofHex_eq_ok_iff {s : String} {i : Id} : ofHex s = .ok i ↔ Hex.Spells (Utf8.encode s) i.bytes := by
  rw [ofHex, ofHexBytes, ← Hex.decode_eq_ok_iff]
  cases Hex.decode (Utf8.encode s) with
  | error e => simp
  | ok bytes =>
    simp only [Except.ok.injEq]
    constructor
    · intro h
      split at h
      · rename_i j hj
        cases h
        rw [ofBytes?] at hj
        split at hj
        · cases hj
          rfl
        · cases hj
      · cases h
    · rintro rfl
      rw [ofBytes?_bytes]

/-- Whether a text is made of 64 digits. -/
structure IsWritten (text : Bytes) : Prop where
  length_eq : text.length = 64
  hasValue : ∀ b ∈ text, Hex.HasValue b

theorem IsWritten.isPaired {text : Bytes} (h : IsWritten text) : Hex.IsPaired text :=
  ⟨by rw [h.length_eq], h.hasValue⟩

/-- Why a text is no identifier: it is not made of pairs of digits, or of another number of them. -/
inductive Fault : Bytes → IdError → Prop
  | hex {text e} : Hex.Fault text e → Fault text (.hex e)
  | size {text} : Hex.IsPaired text → text.length ≠ 64 → Fault text (.size (text.length / 2))

theorem isWritten_or_fault (text : Bytes) : IsWritten text ∨ ∃ e, Fault text e := by
  rcases (Hex.decided_decode text).total with hpaired | ⟨e, hfault⟩
  · by_cases hlength : text.length = 64
    · exact .inl ⟨hlength, hpaired.hasValue⟩
    · exact .inr ⟨_, .size hpaired hlength⟩
  · exact .inr ⟨_, .hex hfault⟩

/-- A text that is no identifier gives its fault. -/
theorem decided_ofHexBytes (text : Bytes) : Decided (ofHexBytes text) (IsWritten text) (Fault text) := by
  refine .of_total (isWritten_or_fault text) (fun h => ?_) fun e h => ?_
  · obtain ⟨bytes, hbytes, hlength⟩ := Hex.decode_of_isPaired h.isPaired
    have h32 : bytes.length = 32 := by
      have := h.length_eq
      omega
    exact ⟨⟨bytes, h32⟩, by simp only [ofHexBytes, hbytes, ofBytes?, dif_pos h32]⟩
  · cases h with
    | hex hfault => rw [ofHexBytes, Hex.decode_of_fault hfault]
    | size hpaired hne =>
      obtain ⟨bytes, hbytes, hlength⟩ := Hex.decode_of_isPaired hpaired
      have h32 : bytes.length ≠ 32 := by omega
      have hhalf : text.length / 2 = bytes.length := by omega
      simp only [ofHexBytes, hbytes, ofBytes?, dif_neg h32, hhalf]

end Id

namespace Utf8

theorem encode_injective {s t : String} (h : encode s = encode t) : s = t := by
  have key : ∀ s : String, s.toByteArray = (encode s).toByteArray := fun s => String.utf8Encode_toList.symm
  apply String.toByteArray_inj.1
  rw [key, key, h]

end Utf8

end EventRelay
