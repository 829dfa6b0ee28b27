import EventRelay.Double
import EventRelay.Json
/-!
# Doubles in JSON text

The double that a number stands for.  Its digits are taken up as long as a word holds them; those in
front of the point that are left over count as places, those behind it not at all.  The word is then
brought to its place by one multiplication or division by a power of ten, in doubles, after up to two
divisions where the power is beyond the powers of ten that doubles have.  The result may differ from the
nearest double in its last digits.

A number too large for a double stands for none.
-/

namespace EventRelay.Number

/-- Takes up digits as long as a word holds them; those that are left over. -/
def takeUp (n : Nat) : List Char → Nat × List Char
  | [] => (n, [])
  | c :: rest =>
    let more := n * 10 + (c.toNat - 48)
    if more < UInt64.size then takeUp more rest else (n, c :: rest)

/-- The largest power of ten that doubles have. -/
def maxTens : Nat := 308

/-- Divides by a power of ten, at most `count` times by the largest one before. -/
def lower (x : Binary) (places : Nat) : Nat → Binary
  | 0 => if places ≤ maxTens then x.div .double (.tens .double places) else .zero
  | count + 1 =>
    if places ≤ maxTens then x.div .double (.tens .double places)
    else lower (x.div .double (.tens .double maxTens)) (places - maxTens) count

/-- A word times a power of ten, unless that is too large. -/
def place? (n : Nat) (exponent : Int) : Option Binary :=
  if n = 0 then some .zero
  else
    let x := Binary.ofNat .double n
    if exponent < 0 then some (lower x exponent.natAbs 2)
    else if maxTens < exponent.toNat then none
    else
      let y := x.mul .double (.tens .double exponent)
      if Double.top.le y then none else some y

/-- The magnitude of the double that a number stands for. -/
def magnitude? : Number → Option Binary
  | .integer _ n =>
    let (word, left) := takeUp 0 (Nat.toDigits 10 n)
    place? word left.length
  | .decimal _ n exponent => place? n exponent

def isNegative : Number → Bool
  | .integer negative _ | .decimal negative _ _ => negative

/-- The double that a number stands for. -/
def double? (n : Number) : Option Double := n.magnitude?.map (.finite n.isNegative)

/-- The number that digits before and behind the point and an exponent write. -/
def ofDigits (negative : Bool) (whole fraction : List Char) (exponent : Int) : Number :=
  let (n, left) := takeUp 0 whole
  let (n, cut) := takeUp n fraction
  .decimal negative n (left.length - (fraction.length - cut.length) + exponent)

example : (ofDigits false ['1'] ['5'] 308).magnitude? =
    some (.mul .double (.ofNat .double 15) (.tens .double 307)) := by
  decide +kernel

example : (ofDigits false ['1'] ['8'] 308).magnitude? = none := by decide +kernel

end EventRelay.Number
