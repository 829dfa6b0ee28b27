import EventRelay.Text.Hex
import EventRelay.Text.Utf8
/-!
# Identifiers

Events and their authors are named by 32 bytes, written as 64 hexadecimal digits.

Main statements: `Id.ofHexBytes_encode` (an identifier is read back from its digits) and the instances that
make `Id.cmp` a lawful order.
-/

namespace EventRelay

open Std

/-- The name of an event or an author: 32 bytes. -/
structure Id where
  bytes : Bytes
  length_bytes : bytes.length = 32
  deriving DecidableEq

/-- Why a text does not name an identifier. -/
inductive IdError where
  | hex (cause : HexError)
  /-- The text is hexadecimal but writes this many bytes. -/
  | size (got : Nat)
  deriving DecidableEq

namespace Id

/-- The identifier made of these bytes, if there are 32. -/
def ofBytes? (s : Bytes) : Option Id := if h : s.length = 32 then some ⟨s, h⟩ else none

@[simp] theorem ofBytes?_bytes (i : Id) : ofBytes? i.bytes = some i := by
  simp [ofBytes?, i.length_bytes]

theorem bytes_inj {i j : Id} : i.bytes = j.bytes ↔ i = j := by
  constructor
  · intro h
    cases i
    cases j
    cases h
    rfl
  · rintro rfl
    rfl

/-- Identifiers are ordered by their bytes. -/
def cmp (i j : Id) : Ordering := Bytes.cmp i.bytes j.bytes

instance : TransCmp cmp where
  eq_swap {i j} := Bytes.cmp_eq_swap i.bytes j.bytes
  isLE_trans {i j k} := @TransCmp.isLE_trans _ Bytes.cmp _ i.bytes j.bytes k.bytes

instance : LawfulEqCmp cmp where
  compare_self {i} := Bytes.cmp_self i.bytes
  eq_of_compare {i j} h := by
    obtain ⟨s, hs⟩ := i
    obtain ⟨t, ht⟩ := j
    cases Bytes.eq_of_cmp h
    rfl

/-- Reads the bytes of hexadecimal text. -/
def ofHexBytes (s : Bytes) : Except IdError Id :=
  match Hex.decode s with
  | .error e => .error (.hex e)
  | .ok bytes =>
    match ofBytes? bytes with
    | some i => .ok i
    | none => .error (.size bytes.length)

def ofHex (s : String) : Except IdError Id := ofHexBytes (Utf8.encode s)

/-- The 64 digits of an identifier. -/
def toHex (i : Id) : String := Hex.toText i.bytes

theorem ofHexBytes_encode (i : Id) : ofHexBytes (Hex.encode i.bytes) = .ok i := by
  simp [ofHexBytes, Hex.decode_encode]

end Id

end EventRelay
