import EventRelay.Bytes
/-!
# UTF-8

The bytes of a string, and a reading of arbitrary bytes as text in which every maximal ill-formed
part becomes one replacement character.

Reading is a fold over the bytes: the state between two bytes is the sequence that is still open, if
any (`Open`), and `feed` says what one byte completes and what it leaves open.
-/

namespace EventRelay.Utf8

/-- The UTF-8 bytes of a string. -/
def encode (s : String) : Bytes := s.toList.flatMap String.utf8EncodeChar

/-- A sequence that lacks bytes: how many, the bits read so far, and the range of the next byte. -/
structure Open where
  lacking : Nat
  bits : Nat
  low : UInt8
  high : UInt8

/-- The character that stands for an ill-formed part. -/
def replacement : Char := '\ufffd'

/-- What a byte means where a sequence begins.  The range of the second byte shuts out overlong
forms, surrogates and numbers above the last code point. -/
def first (b : UInt8) : List Char × Option Open :=
  if b < 0x80 then ([Char.ofNat b.toNat], none)
  else if b < 0xC2 then ([replacement], none)
  else if b < 0xE0 then ([], some ⟨1, b.toNat - 0xC0, 0x80, 0xBF⟩)
  else if b = 0xE0 then ([], some ⟨2, 0, 0xA0, 0xBF⟩)
  else if b = 0xED then ([], some ⟨2, 0xD, 0x80, 0x9F⟩)
  else if b < 0xF0 then ([], some ⟨2, b.toNat - 0xE0, 0x80, 0xBF⟩)
  else if b = 0xF0 then ([], some ⟨3, 0, 0x90, 0xBF⟩)
  else if b < 0xF4 then ([], some ⟨3, b.toNat - 0xF0, 0x80, 0xBF⟩)
  else if b = 0xF4 then ([], some ⟨3, 4, 0x80, 0x8F⟩)
  else ([replacement], none)

/-- The characters that one more byte completes, and the sequence it leaves open.  A byte that cannot
go on ends the open sequence as ill-formed and begins anew. -/
def feed : Option Open → UInt8 → List Char × Option Open
  | none, b => first b
  | some o, b =>
    if o.low ≤ b ∧ b ≤ o.high then
      let bits := o.bits * 64 + (b.toNat - 0x80)
      if o.lacking ≤ 1 then ([Char.ofNat bits], none)
      else ([], some ⟨o.lacking - 1, bits, 0x80, 0xBF⟩)
    else (replacement :: (first b).1, (first b).2)

/-- Reads bytes with a sequence open before them. -/
def decodeFrom : Option Open → Bytes → List Char
  | none, [] => []
  | some _, [] => [replacement]
  | state, b :: rest => (feed state b).1 ++ decodeFrom (feed state b).2 rest

/-- Any bytes as text; every maximal ill-formed part becomes one replacement character. -/
def decodeLossy (s : Bytes) : String := String.ofList (decodeFrom none s)

example : decodeFrom none [0x61, 0xC3, 0xA9] = ['a', 'é'] := by decide

example : decodeFrom none [0xF0, 0x9F, 0x98, 0x41, 0xC0, 0xE2] =
    [replacement, 'A', replacement, replacement] := by decide

end EventRelay.Utf8
