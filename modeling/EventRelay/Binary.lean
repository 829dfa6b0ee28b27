import EventRelay.Text.Decimal
/-!
# Binary numbers

A nonnegative number as a whole number of units, the unit being a power of two, and rounding to so many
binary digits: to the nearest, and halfway between two to the even number of units.

Rounding gives a number all of its digits unless its unit would become too fine, so that numbers rounded
alike are equal only if they are written alike.
-/

namespace EventRelay

structure Binary where
  units : Nat
  power : Int
  deriving DecidableEq

/-- How many binary digits a number has, and how fine its unit may be. -/
structure Precision where
  digits : Nat
  least : Option Int

namespace Precision

/-- The digits of a double. -/
def double : Precision := ⟨53, some (-1074)⟩

/-- The digits that a conversion between decimal and binary carries on the way. -/
def extended : Precision := ⟨64, none⟩

end Precision

namespace Binary

def zero : Binary := ⟨0, 0⟩

def twos (n : Nat) : Nat := Nat.pow 2 n

/-- The two sides of a quotient times a power of two. -/
def scaled (num den : Nat) (power : Int) : Nat × Nat :=
  if 0 ≤ power then (num * twos power.toNat, den) else (num, den * twos (-power).toNat)

/-- The power of two of the first binary digit of a quotient of positive numbers. -/
def leading (num den : Nat) : Int :=
  let guess : Int := (num.log2 : Int) - den.log2
  let (n, d) := scaled num den (-guess)
  if d ≤ n then guess else guess - 1

/-- The whole number nearest to a quotient; of two equally near the even one. -/
def nearest (num den : Nat) : Nat :=
  let q := num / den
  let r := num % den
  if 2 * r < den ∨ (2 * r = den ∧ q % 2 = 0) then q else q + 1

/-- A quotient times a power of two, rounded. -/
def round (p : Precision) (num den : Nat) (power : Int) : Binary :=
  if num = 0 then zero
  else
    let full := leading num den + power + 1 - p.digits
    let unit := match p.least with
      | none => full
      | some least => max full least
    let (n, d) := scaled num den (power - unit)
    let units := nearest n d
    if units = 0 then zero
    else if units = twos p.digits then ⟨twos (p.digits - 1), unit + 1⟩
    else ⟨units, unit⟩

def ofNat (p : Precision) (n : Nat) : Binary := round p n 1 0

/-- A power of ten. -/
def tens (p : Precision) (power : Int) : Binary :=
  if 0 ≤ power then round p (Decimal.tens power.toNat) 1 0
  else round p 1 (Decimal.tens (-power).toNat) 0

/-- The number with fewer digits. -/
def reround (p : Precision) (x : Binary) : Binary := round p x.units 1 x.power

def mul (p : Precision) (x y : Binary) : Binary := round p (x.units * y.units) 1 (x.power + y.power)

/-- A quotient; nothing is divided by zero. -/
def div (p : Precision) (x y : Binary) : Binary := round p x.units y.units (x.power - y.power)

/-- Numbers by size. -/
def le (x y : Binary) : Bool :=
  let (a, b) := scaled x.units y.units (x.power - y.power)
  a ≤ b

def lt (x y : Binary) : Bool := !le y x

/-- The whole part. -/
def floor (x : Binary) : Nat :=
  let (n, d) := scaled x.units 1 x.power
  n / d

def isWhole (x : Binary) : Bool :=
  let (n, d) := scaled x.units 1 x.power
  n % d = 0

/-- The nearest whole number; of two equally near the upper one. -/
def roundUp (x : Binary) : Nat :=
  let (n, d) := scaled x.units 1 x.power
  (2 * n + d) / (2 * d)

example : ofNat .double 9007199254740993 = ofNat .double 9007199254740992 := by decide +kernel

example : (tens .double (-1)).units = 7205759403792794 ∧ (tens .double (-1)).power = -56 := by
  decide +kernel

example : (ofNat .double 6).floor = 6 ∧ (⟨5, -1⟩ : Binary).roundUp = 3 ∧
    (⟨5, -1⟩ : Binary).floor = 2 := by
  decide +kernel

end Binary

end EventRelay
