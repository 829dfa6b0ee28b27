/-!
# Decimal text of words

Reading a 64-bit unsigned word from decimal text: one optional plus sign, then digits alone, and a
value that fits.
-/

namespace EventRelay.Decimal

/-- The value of a string of digits, `none` if some character is no digit. -/
def natOfDigits? (cs : List Char) : Option Nat :=
  cs.foldlM (fun n c => if c.isDigit then some (n * 10 + (c.toNat - 48)) else none) 0

/-- A natural number as a word, if it fits. -/
def word? (n : Nat) : Option UInt64 :=
  if n < UInt64.size then some (UInt64.ofNat n) else none

/-- A power of ten. -/
def tens (n : Nat) : Nat := Nat.pow 10 n

/-- Whether a number fits in a signed word. -/
def isSignedWord (n : Int) : Bool := Int64.minValue.toInt ≤ n && n ≤ Int64.maxValue.toInt

/-- Reads an unsigned word. -/
def readWord? (s : String) : Option UInt64 :=
  let digits := match s.toList with
    | '+' :: rest => rest
    | cs => cs
  if digits.isEmpty then none else (natOfDigits? digits).bind word?

example : readWord? "+7" = some 7 ∧ readWord? "" = none ∧ readWord? "18446744073709551616" = none := by
  decide +kernel

example : isSignedWord 9223372036854775807 ∧ ¬isSignedWord 9223372036854775808 := by decide

end EventRelay.Decimal
