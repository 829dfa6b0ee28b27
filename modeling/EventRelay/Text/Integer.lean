import EventRelay.Text.Decimal
/-!
# Integers in a base

Reading integers from the digits of a base of at most sixteen, in letters of either size.
-/

namespace EventRelay.Integer

/-- The value of a digit. -/
def digit? (base : Nat) (c : Char) : Option Nat :=
  let value :=
    if '0' ≤ c ∧ c ≤ '9' then c.toNat - 48
    else if 'a' ≤ c ∧ c ≤ 'f' then c.toNat - 87
    else if 'A' ≤ c ∧ c ≤ 'F' then c.toNat - 55
    else base
  if value < base then some value else none

/-- The number that digits write; no digits write none. -/
def nat? (base : Nat) (cs : List Char) : Option Nat :=
  if cs.isEmpty then none else cs.foldlM (fun n c => (digit? base c).map (n * base + ·)) 0

/-- The sign that a number may have, and what follows it. -/
def sign : List Char → Bool × List Char
  | '-' :: rest => (true, rest)
  | '+' :: rest => (false, rest)
  | cs => (false, cs)

/-- The integer that a sign and digits write. -/
def signed (negative : Bool) (n : Nat) : Int := if negative then -n else n

/-- The integer of a signed word that digits write, perhaps with a sign. -/
def read? (base : Nat) (cs : List Char) : Option Int :=
  let (negative, digits) := sign cs
  (nat? base digits).bind fun n =>
    if Decimal.isSignedWord (signed negative n) then some (signed negative n) else none

/-- The character of a code point, unless that is a surrogate or out of range. -/
def char? (n : Nat) : Option Char := if n.isValidChar then some (Char.ofNat n) else none

/-- The character whose code point so many hexadecimal digits write, and what follows them. -/
def escaped? (count : Nat) (cs : List Char) : Option (Char × List Char) :=
  if cs.length < count then none
  else ((nat? 16 (cs.take count)).bind char?).map fun c => (c, cs.drop count)

example : read? 10 ['-', '7'] = some (-7) ∧ read? 16 ['f', 'F'] = some 255 ∧ read? 8 ['8'] = none := by
  decide +kernel

example : read? 10 (Nat.toDigits 10 9223372036854775808) = none ∧ read? 10 ['+'] = none := by
  decide +kernel

end EventRelay.Integer
