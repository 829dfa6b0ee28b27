import EventRelay.Proofs.Index.KeyOrder
import EventRelay.Text.Utf8
import Mathlib.Data.String.Basic
/-!
# UTF-8, read back and in order

The bytes of a string are read back as that string, and strings are ordered like their bytes.  Both hold
character by character: `Writes` lists the four forms that a code point has in bytes, and in each of them
the first byte tells the number of bytes and is the greater, the more there are.

Main statements: `decodeLossy_encode` and `cmp_encode_eq_lt_iff`.
-/

namespace EventRelay

open Std

theorem Bytes.cmp_cons_eq_lt_iff {a b : UInt8} {s t : Bytes} :
    cmp (a :: s) (b :: t) = .lt ↔ a.toNat < b.toNat ∨ a.toNat = b.toNat ∧ cmp s t = .lt := by
  simp only [cmp, UInt8.lt_iff_toNat_lt]
  split
  · simp [*]
  · split
    · rename_i hlt hgt
      simp only [reduceCtorEq, false_iff]
      omega
    · rename_i hlt hgt
      have heq : a.toNat = b.toNat := by omega
      simp [heq]

namespace Utf8

/-! ### Code points -/

/-- The bytes of a code point: what is above its last six, twelve or eighteen binary digits stands in the
first byte, and each of the others holds six digits. -/
inductive Writes (n : Nat) : Bytes → Prop
  | one : n < 0x80 → Writes n [.ofNat n]
  | two : 0x80 ≤ n → n < 0x800 → Writes n [.ofNat (0xC0 + n / 64), .ofNat (0x80 + n % 64)]
  | three : 0x800 ≤ n → n < 0x10000 → (n < 0xD800 ∨ 0xDFFF < n) →
      Writes n [.ofNat (0xE0 + n / 64 / 64), .ofNat (0x80 + n / 64 % 64), .ofNat (0x80 + n % 64)]
  | four : 0x10000 ≤ n → n < 0x110000 →
      Writes n [.ofNat (0xF0 + n / 64 / 64 / 64), .ofNat (0x80 + n / 64 / 64 % 64),
        .ofNat (0x80 + n / 64 % 64), .ofNat (0x80 + n % 64)]

theorem writes_char (c : Char) : Writes c.toNat (String.utf8EncodeChar c) := by
  have hvalid : c.val.toNat < 0xD800 ∨ 0xDFFF < c.val.toNat ∧ c.val.toNat < 0x110000 := c.valid
  show Writes c.val.toNat _
  simp only [String.utf8EncodeChar]
  generalize c.val.toNat = n at hvalid ⊢
  have h12 : n / 4096 = n / 64 / 64 := (Nat.div_div_eq_div_mul n 64 64).symm
  have h18 : n / 262144 = n / 64 / 64 / 64 := by rw [Nat.div_div_eq_div_mul, Nat.div_div_eq_div_mul]
  have hdigit : ∀ k, UInt8.ofNat (k % 64 + 128) = .ofNat (0x80 + k % 64) :=
    fun k => congrArg UInt8.ofNat (Nat.add_comm _ _)
  have hlead : ∀ bound {k size}, k < bound → UInt8.ofNat (k % bound + size) = .ofNat (size + k) := by
    intro bound k size hk
    rw [Nat.mod_eq_of_lt hk, Nat.add_comm]
  split_ifs with h1 h2 h3
  · exact .one (by omega)
  · rw [hdigit, hlead 32 (by omega)]
    exact .two (by omega) (by omega)
  · rw [hdigit, hdigit, h12, hlead 16 (by omega)]
    exact .three (by omega) (by omega) (hvalid.imp_right And.left)
  · rw [hdigit, hdigit, hdigit, h12, h18, hlead 8 (by omega)]
    exact .four (by omega) (by omega)

theorem toNat_ofNat {n : Nat} (h : n < 256) : (UInt8.ofNat n).toNat = n := UInt8.toNat_ofNat_of_lt' h

/-! ### Order -/

/-- The greater of two code points has the greater bytes, whatever follows. -/
theorem cmp_of_writes {m n : Nat} {a b s t : Bytes} (ha : Writes m a) (hb : Writes n b) (h : m < n) :
    Bytes.cmp (a ++ s) (b ++ t) = .lt := by
  cases ha with
  | one hm =>
    cases hb with
    | _ => simp only [List.cons_append, Bytes.cmp_cons_eq_lt_iff, UInt8.toNat_ofNat']; omega
  | two hm hm' =>
    cases hb with
    | one hn => omega
    | _ => simp only [List.cons_append, Bytes.cmp_cons_eq_lt_iff, UInt8.toNat_ofNat']; omega
  | three hm hm' =>
    cases hb with
    | one hn | two hn => omega
    | _ => simp only [List.cons_append, Bytes.cmp_cons_eq_lt_iff, UInt8.toNat_ofNat']; omega
  | four hm hm' =>
    cases hb with
    | four => simp only [List.cons_append, Bytes.cmp_cons_eq_lt_iff, UInt8.toNat_ofNat']; omega
    | _ => omega

theorem cmp_encode_of_lt {s t : String} (h : s < t) : Bytes.cmp (encode s) (encode t) = .lt := by
  -- by induction on the first string, for the lists of characters
  have key : ∀ {cs ds : List Char}, cs < ds →
      Bytes.cmp (cs.flatMap String.utf8EncodeChar) (ds.flatMap String.utf8EncodeChar) = .lt := by
    intro cs
    induction cs with
    | nil =>
      intro ds h
      cases ds with
      | nil => exact absurd h (List.not_lt_nil _)
      | cons d ds =>
        obtain ⟨b, t, hbytes⟩ := List.exists_cons_of_ne_nil (String.utf8EncodeChar_ne_nil (c := d))
        rw [List.flatMap_cons, hbytes]
        rfl
    | cons c cs ih =>
      intro ds h
      cases ds with
      | nil => exact absurd h (List.not_lt_nil _)
      | cons d ds =>
        rw [List.flatMap_cons, List.flatMap_cons]
        rcases List.cons_lt_cons_iff.1 h with hlt | ⟨rfl, hrest⟩
        · exact cmp_of_writes (writes_char c) (writes_char d) hlt
        · rw [Bytes.cmp_append_left]
          exact ih hrest
  exact key (String.lt_iff_toList_lt.1 h)

/-- Strings are ordered like their bytes. -/
theorem cmp_encode_eq_lt_iff {s t : String} : Bytes.cmp (encode s) (encode t) = .lt ↔ s < t := by
  refine ⟨fun h => ?_, cmp_encode_of_lt⟩
  rcases Std.lt_trichotomy s t with hlt | rfl | hgt
  · exact hlt
  · rw [Bytes.cmp_self] at h
    cases h
  · rw [Bytes.cmp_eq_swap, cmp_encode_of_lt hgt] at h
    cases h

/-! ### Reading back -/

deriving instance DecidableEq for Open

theorem first_two {x : Nat} (h : 2 ≤ x) (h' : x < 32) :
    first (.ofNat (0xC0 + x)) = ([], some ⟨1, x, 0x80, 0xBF⟩) := by
  have key : ∀ x : Fin 32, 2 ≤ x.val → first (.ofNat (0xC0 + x)) = ([], some ⟨1, x, 0x80, 0xBF⟩) := by
    decide
  exact key ⟨x, h'⟩ h

/-- The second of three bytes shuts out what two bytes can write, and the surrogates. -/
theorem first_three {x : Nat} (h : x < 16) :
    ∃ low high, first (.ofNat (0xE0 + x)) = ([], some ⟨2, x, low, high⟩)
      ∧ low.toNat = (if x = 0 then 0xA0 else 0x80) ∧ high.toNat = if x = 13 then 0x9F else 0xBF := by
  have key : ∀ x : Fin 16, first (.ofNat (0xE0 + x))
      = ([], some ⟨2, x, if x.val = 0 then 0xA0 else 0x80, if x.val = 13 then 0x9F else 0xBF⟩) := by
    decide
  exact ⟨_, _, key ⟨x, h⟩, apply_ite UInt8.toNat _ _ _, apply_ite UInt8.toNat _ _ _⟩

/-- The second of four bytes shuts out what three bytes can write, and what is above all code points. -/
theorem first_four {x : Nat} (h : x < 5) :
    ∃ low high, first (.ofNat (0xF0 + x)) = ([], some ⟨3, x, low, high⟩)
      ∧ low.toNat = (if x = 0 then 0x90 else 0x80) ∧ high.toNat = if x = 4 then 0x8F else 0xBF := by
  have key : ∀ x : Fin 5, first (.ofNat (0xF0 + x))
      = ([], some ⟨3, x, if x.val = 0 then 0x90 else 0x80, if x.val = 4 then 0x8F else 0xBF⟩) := by
    decide
  exact ⟨_, _, key ⟨x, h⟩, apply_ite UInt8.toNat _ _ _, apply_ite UInt8.toNat _ _ _⟩

/-- A first byte that is left open. -/
theorem decodeFrom_first {b : UInt8} {o : Open} {rest : Bytes} (h : first b = ([], some o)) :
    decodeFrom none (b :: rest) = decodeFrom (some o) rest := by
  rw [decodeFrom, feed, h]
  rfl

/-- Six digits that the open sequence admits go on with it. -/
theorem decodeFrom_digits {o : Open} {x : Nat} {rest : Bytes} (hx : x < 64) (hlow : o.low.toNat ≤ 0x80 + x)
    (hhigh : 0x80 + x ≤ o.high.toNat) :
    decodeFrom (some o) (.ofNat (0x80 + x) :: rest) =
      if o.lacking ≤ 1 then Char.ofNat (o.bits * 64 + x) :: decodeFrom none rest
      else decodeFrom (some ⟨o.lacking - 1, o.bits * 64 + x, 0x80, 0xBF⟩) rest := by
  have hbyte : (UInt8.ofNat (0x80 + x)).toNat = 0x80 + x := toNat_ofNat (by omega)
  have hin : o.low ≤ UInt8.ofNat (0x80 + x) ∧ UInt8.ofNat (0x80 + x) ≤ o.high := by
    rw [UInt8.le_iff_toNat_le, UInt8.le_iff_toNat_le, hbyte]
    exact ⟨hlow, hhigh⟩
  rw [decodeFrom, feed, if_pos hin, hbyte, Nat.add_sub_cancel_left]
  split <;> rfl

/-- A first byte and the second of at least three. -/
theorem decodeFrom_second {b low high : UInt8} {lacking bits x : Nat} {rest : Bytes}
    (h : first b = ([], some ⟨lacking + 2, bits, low, high⟩)) (hx : x < 64) (hlow : low.toNat ≤ 0x80 + x)
    (hhigh : 0x80 + x ≤ high.toNat) :
    decodeFrom none (b :: .ofNat (0x80 + x) :: rest)
      = decodeFrom (some ⟨lacking + 1, bits * 64 + x, 0x80, 0xBF⟩) rest := by
  rw [decodeFrom_first h, decodeFrom_digits hx hlow hhigh, if_neg (by simp)]
  rfl

theorem le_last {x : Nat} (h : x < 64) : 0x80 + x ≤ (0xBF : UInt8).toNat :=
  Nat.add_le_add_left (Nat.le_of_lt_succ h) 0x80

theorem decodeFrom_next {lacking bits x : Nat} {rest : Bytes} (hx : x < 64) :
    decodeFrom (some ⟨lacking + 2, bits, 0x80, 0xBF⟩) (.ofNat (0x80 + x) :: rest)
      = decodeFrom (some ⟨lacking + 1, bits * 64 + x, 0x80, 0xBF⟩) rest := by
  rw [decodeFrom_digits hx (Nat.le_add_right _ _) (le_last hx), if_neg (by simp)]
  rfl

theorem decodeFrom_last {bits x : Nat} {rest : Bytes} (hx : x < 64) :
    decodeFrom (some ⟨1, bits, 0x80, 0xBF⟩) (.ofNat (0x80 + x) :: rest)
      = Char.ofNat (bits * 64 + x) :: decodeFrom none rest := by
  rw [decodeFrom_digits hx (Nat.le_add_right _ _) (le_last hx)]
  rfl

theorem decodeFrom_of_writes {n : Nat} {b rest : Bytes} (h : Writes n b) :
    decodeFrom none (b ++ rest) = Char.ofNat n :: decodeFrom none rest := by
  cases h with
  | one hn =>
    have hbyte : (UInt8.ofNat n).toNat = n := toNat_ofNat (by omega)
    have hlt : UInt8.ofNat n < 0x80 := by
      rw [UInt8.lt_iff_toNat_lt, hbyte]
      exact hn
    rw [List.singleton_append, decodeFrom, feed, first, if_pos hlt, hbyte]
    rfl
  | two hn hn' =>
    have hopen := first_two (x := n / 64) (by omega) (by omega)
    have hbits : n / 64 * 64 + n % 64 = n := by omega
    rw [List.cons_append, List.singleton_append, decodeFrom_first hopen, decodeFrom_last (by omega), hbits]
  | three hn hn' hvalid =>
    obtain ⟨low, high, hopen, hlow, hhigh⟩ := first_three (x := n / 64 / 64) (by omega)
    have hbits : (n / 64 / 64 * 64 + n / 64 % 64) * 64 + n % 64 = n := by omega
    rw [List.cons_append, List.cons_append, List.singleton_append,
      decodeFrom_second hopen (by omega) (by split at hlow <;> omega) (by split at hhigh <;> omega),
      decodeFrom_last (by omega), hbits]
  | four hn hn' =>
    obtain ⟨low, high, hopen, hlow, hhigh⟩ := first_four (x := n / 64 / 64 / 64) (by omega)
    have hbits : ((n / 64 / 64 / 64 * 64 + n / 64 / 64 % 64) * 64 + n / 64 % 64) * 64 + n % 64 = n := by omega
    rw [List.cons_append, List.cons_append, List.cons_append, List.singleton_append,
      decodeFrom_second hopen (by omega) (by split at hlow <;> omega) (by split at hhigh <;> omega),
      decodeFrom_next (by omega), decodeFrom_last (by omega), hbits]

/-- The bytes of a string are read back as that string. -/
theorem decodeLossy_encode (s : String) : decodeLossy (encode s) = s := by
  have key : ∀ cs : List Char, decodeFrom none (cs.flatMap String.utf8EncodeChar) = cs := by
    intro cs
    induction cs with
    | nil => rfl
    | cons c cs ih => rw [List.flatMap_cons, decodeFrom_of_writes (writes_char c), Char.ofNat_toNat, ih]
  rw [decodeLossy, encode, key, String.ofList_toList]

/-! ### Strings of one byte -/

theorem Writes.lt_of_singleton {n : Nat} {b : UInt8} (h : Writes n [b]) : b.toNat < 0x80 := by
  cases h with
  | one hn =>
    rw [toNat_ofNat (by omega)]
    exact hn

theorem lt_of_encode_eq_singleton {s : String} {b : UInt8} (h : encode s = [b]) : b.toNat < 0x80 := by
  rw [encode] at h
  cases hs : s.toList with
  | nil =>
    rw [hs] at h
    cases h
  | cons c cs =>
    obtain ⟨x, t, hbytes⟩ := List.exists_cons_of_ne_nil (String.utf8EncodeChar_ne_nil (c := c))
    rw [hs, List.flatMap_cons, hbytes, List.cons_append] at h
    obtain ⟨rfl, hnil⟩ := List.cons.inj h
    have hc := writes_char c
    rw [hbytes, (List.append_eq_nil_iff.1 hnil).1] at hc
    exact hc.lt_of_singleton

/-- Small bytes are the bytes of the characters of their numbers. -/
theorem encode_ofList_map {bytes : Bytes} (h : ∀ b ∈ bytes, b.toNat < 0x80) :
    encode (String.ofList (bytes.map fun b => Char.ofNat b.toNat)) = bytes := by
  rw [encode, String.toList_ofList]
  induction bytes with
  | nil => rfl
  | cons b bytes ih =>
    obtain ⟨hb, hbytes⟩ := List.forall_mem_cons.1 h
    have hchar : (Char.ofNat b.toNat).toNat = b.toNat := by
      rw [Char.ofNat, dif_pos (Or.inl (by omega))]
      rfl
    have hwrites := writes_char (Char.ofNat b.toNat)
    rw [hchar] at hwrites
    rw [List.map_cons, List.flatMap_cons, ih hbytes]
    generalize String.utf8EncodeChar (Char.ofNat b.toNat) = w at hwrites ⊢
    cases hwrites with
    | one => rw [UInt8.ofNat_toNat]; rfl
    | _ => omega

theorem encode_toString {b : UInt8} (h : b.toNat < 0x80) : encode (Char.ofNat b.toNat).toString = [b] := by
  have hlist : (Char.ofNat b.toNat).toString = String.ofList ([b].map fun b => Char.ofNat b.toNat) :=
    String.singleton_eq_ofList
  rw [hlist, encode_ofList_map (List.forall_mem_singleton.2 h)]

end Utf8

end EventRelay
