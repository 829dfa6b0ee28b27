import EventRelay.Double
/-!
# Text of doubles

Reading a double from decimal text, and the shortest decimal text that reads back, written without an
exponent.

The shortest text is found in exact arithmetic.  A double is a whole number of units of a power of two;
the reals that round to it form an interval around it, which holds its ends if the number of units is
even.  For one digit, two digits and so on, the two neighbours of the double among the decimals of that
many digits are tried until one lies in the interval.
-/

namespace EventRelay.Double

/-! ### Reading -/

/-- Reads an exponent, which may have a sign. -/
def exponent? (cs : List Char) : Option Int :=
  let (negative, digits) := match cs with
    | '-' :: rest => (true, rest)
    | '+' :: rest => (false, rest)
    | rest => (false, rest)
  if digits.isEmpty then none
  else (Decimal.natOfDigits? digits).map fun n => if negative then -(n : Int) else n

/-- Reads a decimal without a sign: digits, perhaps with a point before, among or after them, and
perhaps an exponent. -/
def magnitude? (negative : Bool) (cs : List Char) : Option Double :=
  let isMark (c : Char) : Bool := c = 'e' || c = 'E'
  let mantissa := cs.takeWhile fun c => !isMark c
  let whole := mantissa.takeWhile (· ≠ '.')
  let fraction := (mantissa.dropWhile (· ≠ '.')).drop 1
  if whole.isEmpty && fraction.isEmpty then none
  else do
    let n ← Decimal.natOfDigits? (whole ++ fraction)
    let e ← match cs.dropWhile fun c => !isMark c with
      | [] => some 0
      | _ :: exponent => exponent? exponent
    return ofDecimal negative n (e - fraction.length)

/-- Reads a double: a decimal or one of the words for what is not finite, perhaps with a sign. -/
def read? (s : String) : Option Double :=
  let (negative, cs) := match s.toList with
    | '-' :: rest => (true, rest)
    | '+' :: rest => (false, rest)
    | rest => (false, rest)
  let word := String.ofList (cs.map Char.toLower)
  if word = "inf" ∨ word = "infinity" then some (.infinite negative)
  else if word = "nan" then some .notANumber
  else magnitude? negative cs

/-! ### The shortest text -/

/-- A positive double in quarters of its unit, over a common denominator, and the ends of the interval
of reals that round to it. -/
structure Rounding where
  value : Nat
  low : Nat
  high : Nat
  denominator : Nat
  /-- Whether the ends belong to the interval. -/
  closed : Bool

/-- The interval around a positive double. -/
def rounding (x : Binary) : Rounding :=
  let (scale, denominator) := Binary.scaled 1 1 (x.power - 2)
  { value := 4 * x.units * scale
    low := (4 * x.units - if x.units = Binary.twos 52 ∧ -1074 < x.power then 1 else 2) * scale
    high := (4 * x.units + 2) * scale
    denominator
    closed := x.units % 2 = 0 }

/-- A digit string read as a number, times a power of ten. -/
structure Digits where
  number : Nat
  place : Int

/-- One digit less, if the number has come to one more than `digits`; its last digit is then zero. -/
def Digits.carry (d : Digits) (digits : Nat) : Digits :=
  if Decimal.tens digits ≤ d.number then ⟨d.number / 10, d.place + 1⟩ else d

namespace Rounding

/-- The product of a number and a power of ten with the denominator, and the power that the other side
of a comparison has to be multiplied with. -/
def scaled (r : Rounding) (d : Digits) : Nat × Nat :=
  if 0 ≤ d.place then (d.number * Decimal.tens d.place.toNat * r.denominator, 1)
  else (d.number * r.denominator, Decimal.tens (-d.place).toNat)

/-- Whether a decimal rounds to the double. -/
def contains (r : Rounding) (d : Digits) : Bool :=
  let (n, power) := r.scaled d
  if r.closed then r.low * power ≤ n && n ≤ r.high * power
  else r.low * power < n && n < r.high * power

/-- How many whole units of a decimal place the double has. -/
def below (r : Rounding) (place : Int) : Nat :=
  if 0 ≤ place then r.value / (r.denominator * Decimal.tens place.toNat)
  else r.value * Decimal.tens (-place).toNat / r.denominator

/-- How many digits the double has before the point; less than one if zeros follow it. -/
def wholeDigits (r : Rounding) : Int :=
  let zeros := ((List.range 400).find? fun j => r.denominator ≤ r.value * Decimal.tens (j + 1)).getD 0
  if r.denominator ≤ r.value then (Nat.toDigits 10 (r.value / r.denominator)).length
  else 0 - zeros

/-- The nearer of the two neighbours of the double among the decimals of so many digits, of those that
round to it; of two equally near the upper one. -/
def ofLength? (r : Rounding) (digits : Nat) : Option Digits :=
  let place := r.wholeDigits - digits
  let low : Digits := ⟨r.below place, place⟩
  let high : Digits := ⟨low.number + 1, place⟩
  if r.contains low && r.contains high then
    let (a, power) := r.scaled low
    let (b, _) := r.scaled high
    some ((if a + b ≤ 2 * r.value * power then high else low).carry digits)
  else if r.contains low then some low
  else if r.contains high then some (high.carry digits)
  else none

/-- The shortest decimal that rounds to the double; seventeen digits always do. -/
def shortest (r : Rounding) : Digits :=
  ((List.range 17).findSome? fun n => r.ofLength? (n + 1)).getD ⟨0, 0⟩

end Rounding

/-- A decimal without an exponent. -/
def Digits.text (d : Digits) : String :=
  let digits := Nat.toDigits 10 d.number
  if 0 ≤ d.place then String.ofList (digits ++ List.replicate d.place.toNat '0')
  else
    let places := (-d.place).toNat
    let padded := List.replicate (places + 1 - digits.length) '0' ++ digits
    String.ofList (padded.take (padded.length - places) ++ '.' :: padded.drop (padded.length - places))

/-- The shortest text of a double. -/
def text : Double → String
  | .finite negative x =>
    (if negative then "-" else "") ++ if x.units = 0 then "0" else (rounding x).shortest.text
  | .infinite negative => if negative then "-inf" else "inf"
  | .notANumber => "NaN"

end EventRelay.Double
