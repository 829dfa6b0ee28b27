import EventRelay.Bytes
import EventRelay.Text.Quoted
/-!
# Hexadecimal text

Two digits to the byte.  Writing uses small letters, reading takes letters of either size and reports
an odd number of digits before anything else, then the first byte that is no digit.

Main statement: `decode_encode`, every byte string is read back from its digits.
-/

namespace EventRelay

/-- Why a text is not hexadecimal. -/
inductive HexError where
  | oddLength
  /-- The byte at this offset is no digit. -/
  | badDigit (byte : UInt8) (offset : Nat)
  deriving DecidableEq

/-- A bad byte is shown as the character of that code point. -/
def HexError.message : HexError → String
  | .oddLength => "invalid hex: Odd number of digits"
  | .badDigit byte offset =>
    "invalid hex: Invalid character " ++ Text.quotedChar (Char.ofNat byte.toNat) ++ " at position "
      ++ toString offset

namespace Hex

/-- The value of a hexadecimal digit. -/
def digit? (b : UInt8) : Option UInt8 :=
  if 0x30 ≤ b ∧ b ≤ 0x39 then some (b - 0x30)
  else if 0x61 ≤ b ∧ b ≤ 0x66 then some (b - 0x57)
  else if 0x41 ≤ b ∧ b ≤ 0x46 then some (b - 0x37)
  else none

/-- The small digit of a value below 16. -/
def digitOf (n : UInt8) : UInt8 := if n < 10 then n + 0x30 else n + 0x57

def readDigit (offset : Nat) (b : UInt8) : Except HexError UInt8 :=
  match digit? b with
  | some v => .ok v
  | none => .error (.badDigit b offset)

/-- Reads the digits from `offset` on, two at a time. -/
def decodeFrom : Nat → Bytes → Except HexError Bytes
  | _, [] => .ok []
  | _, [_] => .error .oddLength
  | offset, a :: b :: rest => do
    let high ← readDigit offset a
    let low ← readDigit (offset + 1) b
    let tail ← decodeFrom (offset + 2) rest
    return (high * 16 + low) :: tail

def decode (s : Bytes) : Except HexError Bytes :=
  if s.length % 2 = 1 then .error .oddLength else decodeFrom 0 s

def encode : Bytes → Bytes
  | [] => []
  | b :: rest => digitOf (b / 16) :: digitOf (b % 16) :: encode rest

/-- The digits as text; all of them are ASCII. -/
def toText (s : Bytes) : String :=
  String.ofList ((encode s).map fun d => Char.ofNat d.toNat)

theorem readDigit_digitOf (n : UInt8) (h : n < 16) (offset : Nat) :
    readDigit offset (digitOf n) = .ok n := by
  have key : ∀ k : Fin 16, digit? (digitOf (UInt8.ofNat k.val)) = some (UInt8.ofNat k.val) := by
    decide
  have := key ⟨n.toNat, by simpa using UInt8.lt_iff_toNat_lt.1 h⟩
  simp only [UInt8.ofNat_toNat] at this
  rw [readDigit, this]

theorem length_encode (s : Bytes) : (encode s).length = 2 * s.length := by
  induction s with
  | nil => rfl
  | cons b rest ih => simp [encode, ih]; omega

theorem high_lt (b : UInt8) : b / 16 < 16 := by
  rw [UInt8.lt_iff_toNat_lt, UInt8.toNat_div]
  have := b.toNat_lt
  change b.toNat / 16 < 16
  omega

theorem low_lt (b : UInt8) : b % 16 < 16 := by
  rw [UInt8.lt_iff_toNat_lt, UInt8.toNat_mod]
  change b.toNat % 16 < 16
  omega

theorem decodeFrom_encode (s : Bytes) (offset : Nat) : decodeFrom offset (encode s) = .ok s := by
  induction s generalizing offset with
  | nil => rfl
  | cons b rest ih =>
    have whole : b / 16 * 16 + b % 16 = b := by
      rw [← UInt8.toNat_inj]
      have := b.toNat_lt
      simp only [UInt8.toNat_add, UInt8.toNat_mul, UInt8.toNat_div, UInt8.toNat_mod]
      change (b.toNat / 16 * 16 % 256 + b.toNat % 16) % 256 = b.toNat
      omega
    rw [encode, decodeFrom, readDigit_digitOf _ (high_lt b), readDigit_digitOf _ (low_lt b), ih]
    simp [bind, Except.bind, pure, Except.pure, whole]

theorem decode_encode (s : Bytes) : decode (encode s) = .ok s := by
  rw [decode, length_encode, if_neg (by omega), decodeFrom_encode]

end Hex

end EventRelay
