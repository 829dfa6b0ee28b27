import EventRelay.Double
/-!
# Numerals of a table

How a table turns text into a real number and a real number into text.  Both go by way of a number with
the digits of `Precision.extended`, brought to its place by powers of ten, and both are a little off the
nearest number at times.

In a text, digits count as long as they fit in a word.  A real number has fifteen digits in its text;
the sixteenth decides whether the last of them is raised.
-/

namespace EventRelay.Numeral

/-! ### Reading -/

/-- A text that denotes a number, in its parts. -/
structure Parts where
  negative : Bool
  whole : List Char
  fraction : List Char
  exponent : Int
  /-- Whether there is neither a point nor an exponent. -/
  plain : Bool
  deriving DecidableEq

def isSpace (c : Char) : Bool :=
  c = ' ' || c = '\t' || c = '\n' || c = '\x0b' || c = '\x0c' || c = '\r'

/-- A text without the blanks around it. -/
def trim (cs : List Char) : List Char :=
  ((cs.dropWhile isSpace).reverse.dropWhile isSpace).reverse

/-- A sign, if there is one, and what follows. -/
def sign : List Char → Bool × List Char
  | '-' :: rest => (true, rest)
  | '+' :: rest => (false, rest)
  | cs => (false, cs)

/-- The value of an exponent's digits; a large one does not grow further. -/
def exponentOf (digits : List Char) : Nat :=
  digits.foldl (fun e c => if e < 10000 then e * 10 + (c.toNat - 48) else 10000) 0

/-- The exponent that ends a number, if one does; `none` if what is left is no exponent. -/
def exponent? : List Char → Option (Option Int)
  | [] => some none
  | c :: rest =>
    let (negative, digits) := sign rest
    if (c = 'e' ∨ c = 'E') ∧ digits ≠ [] ∧ digits.all Char.isDigit then
      some (some (if negative then -(exponentOf digits : Int) else exponentOf digits))
    else none

/-- Takes a text that denotes a number apart, blanks around it aside.  At least one digit stands before
the exponent; a sign may stand in front. -/
def parts? (s : String) : Option Parts := do
  let (negative, cs) := sign (trim s.toList)
  let (whole, rest) := cs.span Char.isDigit
  let pointed := rest.head? = some '.'
  let (fraction, rest) := if pointed then (rest.drop 1).span Char.isDigit else ([], rest)
  if whole.isEmpty && fraction.isEmpty then none
  else
    let exponent ← exponent? rest
    return ⟨negative, whole, fraction, exponent.getD 0, !pointed && exponent.isNone⟩

/-- What a word must not have come to when one more digit is taken. -/
def fullWord : Nat := 1844674407370955160

/-- Takes digits as long as they fit in a word; how many are left over. -/
def takeWhole (word : Nat) : List Char → Nat × Nat
  | [] => (word, 0)
  | c :: rest =>
    let word := word * 10 + (c.toNat - 48)
    if fullWord ≤ word then (word, rest.length) else takeWhole word rest

/-- Takes digits behind the point as long as they fit in a word; how many fit. -/
def takeFraction (word : Nat) : List Char → Nat × Nat
  | [] => (word, 0)
  | c :: rest =>
    if fullWord ≤ word then (word, 0)
    else
      let (word, taken) := takeFraction (word * 10 + (c.toNat - 48)) rest
      (word, taken + 1)

/-- A word times a power of ten, with as few tens left as the word allows. -/
def raise : Nat → Nat → Nat × Nat
  | word, 0 => (word, 0)
  | word, e + 1 => if word < (UInt64.size - 1) / 10 then raise (word * 10) e else (word, e + 1)

/-- A word divided by a power of ten, with as few tens left as divide it. -/
def lower : Nat → Nat → Nat × Nat
  | word, 0 => (word, 0)
  | word, e + 1 => if word % 10 = 0 then lower (word / 10) e else (word, e + 1)

/-- Multiplies by a factor so many times. -/
def times (x factor : Binary) : Nat → Binary
  | 0 => x
  | n + 1 => times (x.mul .extended factor) factor n

/-- A power of ten with the digits carried on the way. -/
def power (e : Int) : Binary := .tens .extended e

/-- Multiplies by a power of ten: by hundreds, tens and units of its exponent.  `sign` is that of the
exponent. -/
def scale (x : Binary) (sign : Int) (e : Nat) : Binary :=
  times (times (times x (power (sign * 100)) (e / 100)) (power (sign * 10)) (e % 100 / 10))
    (power sign) (e % 10)

/-- The greatest double. -/
def greatest : Binary := ⟨Binary.twos 53 - 1, 971⟩

/-- A number as a double; what is above all of them is infinite. -/
def toDouble (negative : Bool) (x : Binary) : Double :=
  if greatest.lt x then .infinite negative else .finite negative (x.reround .double)

/-- A word times a power of ten as a double. -/
def place (negative : Bool) (word : Nat) (e : Int) : Double :=
  if word = 0 then .zero negative
  else if e < 0 then
    let (word, e) := lower word e.natAbs
    toDouble negative (scale (.ofNat .extended word) (-1) e)
  else
    let (word, e) := raise word e.toNat
    toDouble negative (scale (.ofNat .extended word) 1 e)

/-- The real number that a text denotes. -/
def Parts.real (p : Parts) : Double :=
  let (word, left) := takeWhole 0 p.whole
  let (word, taken) := takeFraction word p.fraction
  place p.negative word (p.exponent + left - taken)

/-- The number that a text without point and exponent denotes. -/
def Parts.integer? (p : Parts) : Option Int :=
  if p.plain then
    (Decimal.natOfDigits? p.whole).map fun n => if p.negative then -(n : Int) else n
  else none

/-! ### Writing -/

/-- Multiplies by a power of ten while a condition holds, at most `count` times; the exponent of ten
that is left to be multiplied with afterwards. -/
def bring (needed : Binary → Bool) (step : Int) : Nat → Binary × Int → Binary × Int
  | 0, x => x
  | count + 1, (x, e) =>
    if needed x then bring needed step count (x.mul .extended (power step), e - step) else (x, e)

/-- More than a double ever needs to be brought to its place. -/
def steps : Nat := 12

/-- A positive number as a whole number of 18 or 19 digits times a power of ten. -/
def digits (x : Binary) : Nat × Int :=
  let (x, e) :=
    if (power 19).le x then
      bring (power 19).le (-1) steps (bring (power 29).le (-10) steps
        (bring (power 119).le (-100) steps (x, 0)))
    else
      bring (! (power 17).le ·) 1 steps (bring (! (power 7).le ·) 10 steps
        (bring (! (power (-97)).le ·) 100 steps (x, 0)))
  (x.floor, e)

/-- The text of a mantissa times a power of ten, of at most 15 digits: positional if the first digit's
power of ten is from -4 to 14, always with a digit on both sides of the point. -/
def render (negative : Bool) (mantissa : Nat) (exponent : Int) : String :=
  let cut := (Nat.toDigits 10 mantissa).length - 15
  let rounded :=
    if cut = 0 then mantissa else (mantissa + Decimal.tens cut / 2) / Decimal.tens cut
  let all := Nat.toDigits 10 rounded
  let digits := (all.reverse.dropWhile (· = '0')).reverse
  let power : Int := all.length - 1 + (exponent + cut)
  let withPoint (whole fraction : List Char) : List Char :=
    (if whole.isEmpty then ['0'] else whole) ++ ['.'] ++ (if fraction.isEmpty then ['0'] else fraction)
  let body : List Char :=
    if power < -4 ∨ 14 < power then
      let e := Nat.toDigits 10 power.natAbs
      withPoint (digits.take 1) (digits.drop 1) ++ ['e', if power < 0 then '-' else '+']
        ++ (if e.length < 2 then '0' :: e else e)
    else if power < 0 then
      withPoint [] (List.replicate (-power - 1).toNat '0' ++ digits)
    else
      let whole := power.toNat + 1
      withPoint (digits.take whole ++ List.replicate (whole - digits.length) '0') (digits.drop whole)
  String.ofList (if negative then '-' :: body else body)

/-- The text of a real number; zero has no sign. -/
def text : Double → String
  | .finite negative x =>
    if x.units = 0 then "0.0"
    else
      let (mantissa, exponent) := digits x
      render negative mantissa exponent
  | .infinite negative => if negative then "-Inf" else "Inf"
  | .notANumber => "NaN"

end EventRelay.Numeral
