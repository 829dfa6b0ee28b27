import EventRelay.Settings.Value
import EventRelay.Text.Integer
import EventRelay.Text.Invisible
import EventRelay.Text.Lines
/-!
# Reading JSON5

JSON with comments, trailing commas, names without quotes, strings in single quotes or on several lines,
hexadecimal numbers, and numbers that begin with a sign or a point.

A number without a point and an exponent is an integer and must fit in a signed word, a hexadecimal one
in 32 bits.  A sign does not go before a hexadecimal number, and a plus sign not before a word.
-/

namespace EventRelay.Json5

/-! ### Blanks -/

/-- The characters that end a line. -/
def endsLine (c : Char) : Bool := c = '\n' || c = '\r' || c = '\u2028' || c = '\u2029'

def isBlank (c : Char) : Bool := c = '\ufeff' || (Text.isWhite c && c ≠ '\x85')

/-- Skips to the end of a comment between marks. -/
def closeComment? : List Char → Option (List Char)
  | '*' :: '/' :: rest => some rest
  | _ :: rest => closeComment? rest
  | [] => none

/-- Skips blanks and comments, at most `count` of them. -/
def skipGaps : Nat → List Char → List Char
  | 0, cs => cs
  | count + 1, cs =>
    match cs.dropWhile isBlank with
    | '/' :: '/' :: rest => skipGaps count (rest.dropWhile fun c => !endsLine c)
    | '/' :: '*' :: rest =>
      match closeComment? rest with
      | some rest => skipGaps count rest
      | none => '/' :: '*' :: rest
    | cs => cs

def skip (cs : List Char) : List Char := skipGaps (cs.length + 1) cs

/-! ### Strings and names -/

/-- The character that four hexadecimal digits write, or eight in two surrogates. -/
def readUnits? (cs : List Char) : Option (Char × List Char) :=
  match Integer.nat? 16 (cs.take 4), cs.drop 4 with
  | none, _ => none
  | some high, rest =>
    if cs.length < 4 then none
    else if 0xD800 ≤ high ∧ high < 0xDC00 then
      match rest with
      | '\\' :: 'u' :: more =>
        (Integer.nat? 16 (more.take 4)).bind fun low =>
          if 4 ≤ more.length ∧ 0xDC00 ≤ low ∧ low < 0xE000 then
            some (Char.ofNat (0x10000 + (high - 0xD800) * 0x400 + (low - 0xDC00)), more.drop 4)
          else none
      | _ => none
    else (Integer.char? high).map (·, rest)

/-- What a backslash and these characters write, if anything. -/
def escape? : List Char → Option (Option Char × List Char)
  | '\r' :: '\n' :: rest => some (none, rest)
  | 'b' :: rest => some (some '\x08', rest)
  | 'f' :: rest => some (some '\x0c', rest)
  | 'n' :: rest => some (some '\n', rest)
  | 'r' :: rest => some (some '\r', rest)
  | 't' :: rest => some (some '\t', rest)
  | 'v' :: rest => some (some '\x0b', rest)
  | '0' :: rest => some (some '\x00', rest)
  | 'x' :: rest => (Integer.escaped? 2 rest).map fun r => (some r.1, r.2)
  | 'u' :: rest => (readUnits? rest).map fun r => (some r.1, r.2)
  | c :: rest => if endsLine c then some (none, rest) else if c.isDigit then none else some (some c, rest)
  | [] => none

/-- Reads up to the closing quote.  `count` bounds the characters, `before` holds those read, last
first. -/
def readString? (quote : Char) : Nat → List Char → List Char → Option (String × List Char)
  | 0, _, _ => none
  | count + 1, before, cs =>
    match cs with
    | '\\' :: rest =>
      match escape? rest with
      | none => none
      | some (c, rest) => readString? quote count (c.toList ++ before) rest
    | c :: rest =>
      if c = quote then some (String.ofList before.reverse, rest)
      else if endsLine c then none
      else readString? quote count (c :: before) rest
    | [] => none

/-- Whether a name may begin with a character.  Beyond ASCII, whatever can be seen counts as a letter. -/
def startsName (c : Char) : Bool :=
  c.isAlpha || c = '$' || c = '_' || (0x80 ≤ c.toNat && !Text.isInvisible c)

/-- Reads the characters of a name, at most `count` of them. -/
def readNameRest? : Nat → List Char → List Char → Option (List Char × List Char)
  | 0, _, _ => none
  | count + 1, before, cs =>
    match cs with
    | '\\' :: 'u' :: rest =>
      match readUnits? rest with
      | none => none
      | some (c, rest) => readNameRest? count (c :: before) rest
    | c :: rest =>
      if startsName c || (c.isDigit && !before.isEmpty) then readNameRest? count (c :: before) rest
      else some (before, c :: rest)
    | [] => some (before, [])

/-- Reads the name of a field. -/
def readName? : List Char → Option (String × List Char)
  | '"' :: rest => readString? '"' (rest.length + 1) [] rest
  | '\'' :: rest => readString? '\'' (rest.length + 1) [] rest
  | cs =>
    match readNameRest? (cs.length + 1) [] cs with
    | some (c :: before, rest) => some (String.ofList (c :: before).reverse, rest)
    | _ => none

/-! ### Numbers -/

def isHexMark (c : Char) : Bool := c = 'x' || c = 'X'

/-- Whether digits are a whole part without a needless zero in front. -/
def isWhole : List Char → Bool
  | ['0'] => true
  | '0' :: _ | [] => false
  | digits => digits.all Char.isDigit

/-- A decimal number: its digits before and behind the point, if there is one, and its exponent. -/
def isDecimal (cs : List Char) : Bool :=
  let mantissa := cs.takeWhile fun c => c ≠ 'e' && c ≠ 'E'
  let whole := mantissa.takeWhile (· ≠ '.')
  let fraction := (mantissa.dropWhile (· ≠ '.')).drop 1
  let exponent := cs.dropWhile fun c => c ≠ 'e' && c ≠ 'E'
  (isWhole whole || (whole.isEmpty && !fraction.isEmpty)) && fraction.all Char.isDigit
    && (exponent.isEmpty || (Double.exponent? (exponent.drop 1)).isSome)

/-- The value of a number's text. -/
def number? (cs : List Char) : Option Setting :=
  let (negative, body) := Integer.sign cs
  match String.ofList cs with
  | "Infinity" => some (.decimal (.infinite false))
  | "-Infinity" => some (.decimal (.infinite true))
  | "NaN" | "-NaN" => some (.decimal .notANumber)
  | _ =>
    match cs with
    | '0' :: x :: digits =>
      if isHexMark x then
        (Integer.nat? 16 digits).bind fun n => if n < UInt32.size then some (.integer n) else none
      else decimal? negative body
    | _ => decimal? negative body
where
  decimal? (negative : Bool) (body : List Char) : Option Setting :=
    if !isDecimal body then none
    else if body.all Char.isDigit then
      (Decimal.natOfDigits? body).bind fun n =>
        let n := Integer.signed negative n
        if Decimal.isSignedWord n then some (.integer n) else none
    else
      match Double.magnitude? negative body with
      | some (.finite negative x) => some (.decimal (.finite negative x))
      | _ => none

/-- Cuts off the text of a number; a sign stands within it only behind the mark of an exponent. -/
def takeNumber : List Char → List Char × List Char
  | c :: d :: rest =>
    if (c = 'e' || c = 'E') && (d = '+' || d = '-') then
      (c :: d :: rest.takeWhile Char.isAlphanum, rest.dropWhile Char.isAlphanum)
    else if d.isAlphanum || d = '.' then
      let (number, rest) := takeNumber (d :: rest)
      (c :: number, rest)
    else ([c], d :: rest)
  | cs => (cs, [])

/-! ### Values -/

abbrev ValueReader := List Char → Option (Setting × List Char)

/-- Reads the items of an array up to the closing bracket, at most `count` of them. -/
def readItems? (value : ValueReader) : Nat → List Char → Option (List Setting × List Char)
  | 0, _ => none
  | count + 1, cs =>
    match value (skip cs) with
    | none => none
    | some (v, rest) =>
      match skip rest with
      | ']' :: rest => some ([v], rest)
      | ',' :: rest =>
        match skip rest with
        | ']' :: rest => some ([v], rest)
        | rest => (readItems? value count rest).map fun r => (v :: r.1, r.2)
      | _ => none

/-- Reads the fields of an object up to the closing brace, at most `count` of them. -/
def readFields? (value : ValueReader) : Nat → List Char → Option (List (String × Setting) × List Char)
  | 0, _ => none
  | count + 1, cs =>
    match readName? (skip cs) with
    | none => none
    | some (name, rest) =>
      match skip rest with
      | ':' :: rest =>
        match value (skip rest) with
        | none => none
        | some (v, rest) =>
          match skip rest with
          | '}' :: rest => some ([(name, v)], rest)
          | ',' :: rest =>
            match skip rest with
            | '}' :: rest => some ([(name, v)], rest)
            | rest => (readFields? value count rest).map fun r => ((name, v) :: r.1, r.2)
          | _ => none
      | _ => none

/-- Reads a word or a number. -/
def readWord? (cs : List Char) : Option (Setting × List Char) :=
  match cs with
  | 'n' :: 'u' :: 'l' :: 'l' :: rest => some (.nothing, rest)
  | 't' :: 'r' :: 'u' :: 'e' :: rest => some (.flag true, rest)
  | 'f' :: 'a' :: 'l' :: 's' :: 'e' :: rest => some (.flag false, rest)
  | cs =>
    let (number, rest) := takeNumber cs
    (number? number).map (·, rest)

/-- Reads a value in which arrays and objects nest at most this deep. -/
def readValue? : Nat → ValueReader
  | _, '"' :: rest => (readString? '"' (rest.length + 1) [] rest).map fun r => (.text r.1, r.2)
  | _, '\'' :: rest => (readString? '\'' (rest.length + 1) [] rest).map fun r => (.text r.1, r.2)
  | depth + 1, '[' :: rest =>
    match skip rest with
    | ']' :: rest => some (.list [], rest)
    | rest => (readItems? (readValue? depth) (rest.length + 1) rest).map fun r => (.list r.1, r.2)
  | depth + 1, '{' :: rest =>
    match skip rest with
    | '}' :: rest => some (.table [], rest)
    | rest => (readFields? (readValue? depth) (rest.length + 1) rest).map fun r =>
      (.table (Setting.lastOf r.1), r.2)
  | _, cs => readWord? cs

/-- The value that a text writes. -/
def parse? (s : String) : Option Setting :=
  let cs := s.toList
  match readValue? (cs.length + 1) (skip cs) with
  | some (v, rest) => if (skip rest).isEmpty then some v else none
  | none => none

end EventRelay.Json5
