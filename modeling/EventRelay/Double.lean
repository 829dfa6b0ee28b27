import EventRelay.Binary
/-!
# Doubles

Floating-point numbers of 53 binary digits: finite ones with a sign, of zero too, the two infinite ones,
and what is no number.
-/

namespace EventRelay

inductive Double where
  | finite (negative : Bool) (magnitude : Binary)
  | infinite (negative : Bool)
  | notANumber
  deriving DecidableEq

namespace Double

def zero (negative : Bool) : Double := .finite negative .zero

/-- The first power of two above every finite double. -/
def top : Binary := ⟨1, 1024⟩

/-- A magnitude that a double has, unless it is beyond all of them. -/
def ofMagnitude (negative : Bool) (x : Binary) : Double :=
  if top.le x then .infinite negative else .finite negative x

/-- The double nearest to a mantissa times a power of ten. -/
def ofDecimal (negative : Bool) (mantissa : Nat) (exponent : Int) : Double :=
  let size : Int := (Nat.toDigits 10 mantissa).length + exponent
  if mantissa = 0 ∨ size < -330 then zero negative
  else if 310 < size then .infinite negative
  else if 0 ≤ exponent then
    ofMagnitude negative (.round .double (mantissa * Decimal.tens exponent.toNat) 1 0)
  else ofMagnitude negative (.round .double mantissa (Decimal.tens (-exponent).toNat) 0)

def isZero : Double → Bool
  | .finite _ x => x.units = 0
  | _ => false

/-- The nearest unsigned word, a half away from zero; what is too large or too small becomes the largest
or the least word. -/
def toWord : Double → UInt64
  | .finite false x =>
    if x.roundUp < UInt64.size then UInt64.ofNat x.roundUp else UInt64.ofNat (UInt64.size - 1)
  | .infinite false => UInt64.ofNat (UInt64.size - 1)
  | _ => 0

example : (ofDecimal false 25 (-1)).toWord = 3 ∧ (ofDecimal true 25 (-1)).toWord = 0 := by
  decide +kernel

example : ofDecimal false 17976931348623159 292 = .infinite false := by decide +kernel

end Double

end EventRelay
