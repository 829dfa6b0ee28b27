import EventRelay.Json.Number
/-!
# Reading JSON text

Strict JSON: no comments, no trailing commas, no leading zeros or plus signs, no raw control
characters, no lone surrogates, nothing after the value but blanks.  Two limits come on top: a number
must stand for a double, and arrays and objects nest at most `maxDepth` deep.

A reader takes the rest of the text and returns a value with what follows it.  Values are read by
recursion on the depth that is left, items of one container by recursion on a count that the rest of
the text bounds.
-/

namespace EventRelay.Json

/-- How deep arrays and objects may nest. -/
def maxDepth : Nat := 127

def isBlank (c : Char) : Bool := c = ' ' || c = '\t' || c = '\n' || c = '\r'

def skipBlanks (cs : List Char) : List Char := cs.dropWhile isBlank

/-! ### Strings -/

/-- The value of a hexadecimal digit. -/
def hexValue? (c : Char) : Option Nat :=
  if '0' ≤ c ∧ c ≤ '9' then some (c.toNat - 48)
  else if 'a' ≤ c ∧ c ≤ 'f' then some (c.toNat - 87)
  else if 'A' ≤ c ∧ c ≤ 'F' then some (c.toNat - 55)
  else none

/-- The number that four hexadecimal digits write. -/
def readUnit? (a b c d : Char) : Option Nat := do
  let a ← hexValue? a
  let b ← hexValue? b
  let c ← hexValue? c
  let d ← hexValue? d
  return ((a * 16 + b) * 16 + c) * 16 + d

def isHighSurrogate (n : Nat) : Bool := 0xD800 ≤ n && n < 0xDC00

def isLowSurrogate (n : Nat) : Bool := 0xDC00 ≤ n && n < 0xE000

/-- The character that a backslash and this letter write. -/
def shortEscape? : Char → Option Char
  | '"' => some '"'
  | '\\' => some '\\'
  | '/' => some '/'
  | 'b' => some '\x08'
  | 'f' => some '\x0c'
  | 'n' => some '\n'
  | 'r' => some '\r'
  | 't' => some '\t'
  | _ => none

/-- Reads up to the closing quote; `before` holds the characters read, last first. -/
def readString? (before : List Char) : List Char → Option (String × List Char)
  | '"' :: rest => some (String.ofList before.reverse, rest)
  | '\\' :: 'u' :: a :: b :: c :: d :: rest =>
    match readUnit? a b c d with
    | none => none
    | some unit =>
      if isHighSurrogate unit then
        match rest with
        | '\\' :: 'u' :: e :: f :: g :: h :: rest =>
          match readUnit? e f g h with
          | none => none
          | some low =>
            if isLowSurrogate low then
              readString? (Char.ofNat (0x10000 + (unit - 0xD800) * 0x400 + (low - 0xDC00)) :: before) rest
            else none
        | _ => none
      else if isLowSurrogate unit then none
      else readString? (Char.ofNat unit :: before) rest
  | '\\' :: c :: rest =>
    match shortEscape? c with
    | none => none
    | some c => readString? (c :: before) rest
  | c :: rest => if c.toNat < 0x20 then none else readString? (c :: before) rest
  | [] => none

/-! ### Numbers -/

def ofDigits (cs : List Char) : Nat := cs.foldl (fun n c => n * 10 + (c.toNat - 48)) 0

/-- Reads the digits after the decimal point, if there is one. -/
def readFraction? : List Char → Option (List Char × List Char)
  | '.' :: rest =>
    let (digits, rest) := rest.span Char.isDigit
    if digits.isEmpty then none else some (digits, rest)
  | cs => some ([], cs)

/-- Reads the exponent, if there is one. -/
def readExponent? (cs : List Char) : Option (Option Int × List Char) :=
  let signed (negative : Bool) (cs : List Char) :=
    let (digits, rest) := cs.span Char.isDigit
    if digits.isEmpty then none
    else
      let n : Int := ofDigits digits
      some (some (if negative then -n else n), rest)
  let afterMark : List Char → Option (Option Int × List Char)
    | '-' :: rest => signed true rest
    | '+' :: rest => signed false rest
    | cs => signed false cs
  match cs with
  | 'e' :: rest => afterMark rest
  | 'E' :: rest => afterMark rest
  | _ => some (none, cs)

/-- Reads a number. -/
def readNumber? (cs : List Char) : Option (Number × List Char) := do
  let (negative, cs) := match cs with
    | '-' :: rest => (true, rest)
    | _ => (false, cs)
  let (whole, cs) := cs.span Char.isDigit
  match whole with
  | [] => none
  | '0' :: _ :: _ => none
  | _ =>
    let (fraction, cs) ← readFraction? cs
    let (exponent, cs) ← readExponent? cs
    let n :=
      if fraction.isEmpty && exponent.isNone then .integer negative (ofDigits whole)
      else Number.ofDigits negative whole fraction (exponent.getD 0)
    if n.magnitude?.isNone then none else some (n, cs)

/-! ### Values -/

abbrev ValueReader := List Char → Option (Json × List Char)

/-- Reads items up to the closing bracket, at most `count` of them. -/
def readItems? (value : ValueReader) : Nat → List Char → Option (List Json × List Char)
  | 0, _ => none
  | count + 1, cs =>
    match value (skipBlanks cs) with
    | none => none
    | some (v, cs) =>
      match skipBlanks cs with
      | ']' :: rest => some ([v], rest)
      | ',' :: rest =>
        match readItems? value count rest with
        | none => none
        | some (vs, rest) => some (v :: vs, rest)
      | _ => none

/-- Reads fields up to the closing brace, at most `count` of them. -/
def readFields? (value : ValueReader) : Nat → List Char → Option (List (String × Json) × List Char)
  | 0, _ => none
  | count + 1, cs =>
    match skipBlanks cs with
    | '"' :: cs =>
      match readString? [] cs with
      | none => none
      | some (name, cs) =>
        match skipBlanks cs with
        | ':' :: cs =>
          match value (skipBlanks cs) with
          | none => none
          | some (v, cs) =>
            match skipBlanks cs with
            | '}' :: rest => some ([(name, v)], rest)
            | ',' :: rest =>
              match readFields? value count rest with
              | none => none
              | some (fields, rest) => some ((name, v) :: fields, rest)
            | _ => none
        | _ => none
    | _ => none

/-- Reads a value that holds no other: a string, a number or a word. -/
def readScalar? : ValueReader
  | 'n' :: 'u' :: 'l' :: 'l' :: rest => some (.null, rest)
  | 't' :: 'r' :: 'u' :: 'e' :: rest => some (.bool true, rest)
  | 'f' :: 'a' :: 'l' :: 's' :: 'e' :: rest => some (.bool false, rest)
  | '"' :: rest => (readString? [] rest).map fun r => (.string r.1, r.2)
  | cs => (readNumber? cs).map fun r => (.number r.1, r.2)

/-- Reads a value in which arrays and objects nest at most this deep. -/
def readValue? : Nat → ValueReader
  | 0, cs => readScalar? cs
  | depth + 1, cs =>
    match cs with
    | '[' :: rest =>
      match skipBlanks rest with
      | ']' :: rest => some (.array [], rest)
      | rest => (readItems? (readValue? depth) rest.length rest).map fun r => (.array r.1, r.2)
    | '{' :: rest =>
      match skipBlanks rest with
      | '}' :: rest => some (.object [], rest)
      | rest => (readFields? (readValue? depth) rest.length rest).map fun r => (ofFields r.1, r.2)
    | _ => readScalar? cs

/-- The value that a text writes, if it nests at most `depth` deep. -/
def parseWithin? (depth : Nat) (text : String) : Option Json :=
  match readValue? depth (skipBlanks text.toList) with
  | some (v, rest) => if (skipBlanks rest).isEmpty then some v else none
  | none => none

/-- The value that a text writes. -/
def parse? (text : String) : Option Json := parseWithin? maxDepth text

end EventRelay.Json
