import EventRelay.Settings.Value
import EventRelay.Text.Integer
/-!
# Reading RON

Values written like those of a program: structures and tuples in parentheses, perhaps with a name in
front, lists in brackets, maps in braces, optional values, characters, and strings with or without
escapes.

As settings, a structure with named fields and a map are tables, a tuple is a list, a character is a
text, and what is missing, empty or a mere name is nothing.  The names of a map are texts.
-/

namespace EventRelay.Ron

/-- How deep values may nest; a container counts once, and each value in it once more. -/
def maxDepth : Nat := 128

/-! ### Blanks -/

def isBlank (c : Char) : Bool := c = ' ' || c = '\t' || c = '\n' || c = '\r'

/-- Skips to the end of a comment between marks; such comments nest. -/
def closeComment? : Nat → List Char → Option (List Char)
  | level, '/' :: '*' :: rest => closeComment? (level + 1) rest
  | level, '*' :: '/' :: rest => if level = 0 then some rest else closeComment? (level - 1) rest
  | level, _ :: rest => closeComment? level rest
  | _, [] => none

/-- Skips blanks and comments, at most `count` of them. -/
def skipGaps? : Nat → List Char → Option (List Char)
  | 0, _ => none
  | count + 1, cs =>
    match cs.dropWhile isBlank with
    | '/' :: '/' :: rest => skipGaps? count (rest.dropWhile (· ≠ '\n'))
    | '/' :: '*' :: rest => (closeComment? 0 rest).bind (skipGaps? count)
    | '/' :: _ => none
    | cs => some cs

def skip? (cs : List Char) : Option (List Char) := skipGaps? (cs.length + 1) cs

/-- Skips a comma and the blanks around it; whether there was one. -/
def comma? (cs : List Char) : Option (Bool × List Char) :=
  match skip? cs with
  | some (',' :: rest) => (skip? rest).map (true, ·)
  | some rest => some (false, rest)
  | none => none

/-! ### Names -/

def startsName (c : Char) : Bool := c.isAlpha || c = '_'

def isNameChar (c : Char) : Bool := c.isAlphanum || c = '_'

/-- The characters of a name that is marked as such. -/
def isMarkedChar (c : Char) : Bool := isNameChar c || c = '.' || c = '+' || c = '-'

/-- Reads a name.  One of other characters than letters, digits and underscores is marked. -/
def readName? (cs : List Char) : Option (String × List Char) :=
  let named (cs : List Char) : Option (String × List Char) :=
    if (cs.takeWhile isNameChar).length < (cs.takeWhile isMarkedChar).length then none
    else some (String.ofList (cs.takeWhile isNameChar), cs.dropWhile isNameChar)
  match cs with
  | 'r' :: '"' :: _ | ['r'] => none
  | 'r' :: '#' :: rest =>
    let name := rest.takeWhile isMarkedChar
    if name.isEmpty then none else some (String.ofList name, rest.dropWhile isMarkedChar)
  | c :: rest => if startsName c then named (c :: rest) else none
  | [] => none

/-- What follows a word, if the text begins with it and the word ends there. -/
def afterWord? (word : String) (cs : List Char) : Option (List Char) :=
  let rest := cs.drop word.length
  if word.toList.isPrefixOf cs && !(rest.head?.any isNameChar) then some rest else none

/-! ### Texts -/

/-- The character that a backslash and these characters write. -/
def escape? : List Char → Option (Char × List Char)
  | '\'' :: rest => some ('\'', rest)
  | '"' :: rest => some ('"', rest)
  | '\\' :: rest => some ('\\', rest)
  | 'n' :: rest => some ('\n', rest)
  | 'r' :: rest => some ('\r', rest)
  | 't' :: rest => some ('\t', rest)
  | '0' :: rest => some ('\x00', rest)
  | 'x' :: rest => Integer.escaped? 2 rest
  | 'u' :: '{' :: rest =>
    let digits := (rest.take 6).takeWhile (· ≠ '}')
    match rest.drop digits.length with
    | '}' :: rest => ((Integer.nat? 16 digits).bind Integer.char?).map (·, rest)
    | _ => none
  | _ => none

/-- Reads a string up to its closing quote.  `count` bounds the characters, `before` holds those read,
last first. -/
def readString? : Nat → List Char → List Char → Option (String × List Char)
  | 0, _, _ => none
  | count + 1, before, cs =>
    match cs with
    | '"' :: rest => some (String.ofList before.reverse, rest)
    | '\\' :: rest =>
      match escape? rest with
      | none => none
      | some (c, rest) => readString? count (c :: before) rest
    | c :: rest => readString? count (c :: before) rest
    | [] => none

/-- Reads a string without escapes up to its closing quote and the marks behind it. -/
def readRaw? (ending : List Char) (before : List Char) : List Char → Option (String × List Char)
  | [] => none
  | c :: rest =>
    if ending.isPrefixOf (c :: rest) then
      some (String.ofList before.reverse, (c :: rest).drop ending.length)
    else readRaw? ending (c :: before) rest

/-- Reads a string or a character. -/
def readText? : List Char → Option (String × List Char)
  | '"' :: rest => readString? (rest.length + 1) [] rest
  | 'r' :: rest =>
    let marks := rest.takeWhile (· = '#')
    match rest.dropWhile (· = '#') with
    | '"' :: rest => readRaw? ('"' :: marks) [] rest
    | _ => none
  | '\'' :: '\\' :: rest =>
    match escape? rest with
    | some (c, '\'' :: rest) => some (c.toString, rest)
    | _ => none
  | '\'' :: c :: '\'' :: rest => if c = '\'' then none else some (c.toString, rest)
  | _ => none

/-! ### Numbers -/

def isFloatChar (c : Char) : Bool :=
  c.isDigit || c = 'e' || c = 'E' || c = '.' || c = '+' || c = '-' || c = '_'

def isIntegerChar (c : Char) : Bool := (Integer.digit? 16 c).isSome || c = '_'

/-- Reads a decimal. -/
def readFloat? (cs : List Char) : Option (Setting × List Char) :=
  let number := cs.takeWhile isFloatChar
  if '_' ∈ number then none
  else (Double.read? (String.ofList number)).map fun x => (.decimal x, cs.dropWhile isFloatChar)

/-- The base that a number names in front, and what follows. -/
def base : List Char → Nat × List Char
  | '0' :: 'x' :: rest => (16, rest)
  | '0' :: 'b' :: rest => (2, rest)
  | '0' :: 'o' :: rest => (8, rest)
  | cs => (10, cs)

/-- The integer of a word as a signed one: with a sign it has to fit, without one it is taken modulo the
size of a word. -/
def fit? (isSigned : Bool) (n : Int) : Option Int :=
  if isSigned then if Decimal.isSignedWord n then some n else none
  else if n < UInt64.size then some (n.bmod UInt64.size) else none

/-- Reads an integer. -/
def readInteger? (cs : List Char) : Option (Setting × List Char) :=
  let (negative, body) := Integer.sign cs
  let (base, body) := base body
  let digits := body.takeWhile isIntegerChar
  if digits.head? = some '_' then none
  else
    ((Integer.nat? base (digits.filter (· ≠ '_'))).bind fun n =>
      fit? (body.length < cs.length && !(cs.head?.any Char.isDigit)) (Integer.signed negative n)).map fun n =>
        (.integer n, body.dropWhile isIntegerChar)

/-- Reads a number.  What is no integer of a word may still be a decimal. -/
def readNumber? (cs : List Char) : Option (Setting × List Char) :=
  let (_, body) := Integer.sign cs
  if (body.takeWhile isIntegerChar).length < (body.takeWhile isFloatChar).length then readFloat? cs
  else (readInteger? cs).or (readFloat? cs)

/-! ### Values -/

abbrev ValueReader := List Char → Option (Setting × List Char)

/-- Reads items up to a closing mark, at most `count` of them. -/
def readItems? (value : ValueReader) (mark : Char) : Nat → List Char → Option (List Setting × List Char)
  | 0, _ => none
  | count + 1, cs =>
    match skip? cs with
    | none | some [] => none
    | some (c :: rest) =>
      if c = mark then some ([], rest)
      else
        match value (c :: rest) with
        | none => none
        | some (v, rest) =>
          match comma? rest with
          | some (true, rest) => (readItems? value mark count rest).map fun r => (v :: r.1, r.2)
          | some (false, c :: rest) => if c = mark then some ([v], rest) else none
          | _ => none

/-- Reads a name, a colon and a value. -/
def readField? (name : List Char → Option (String × List Char)) (value : ValueReader)
    (cs : List Char) : Option ((String × Setting) × List Char) :=
  match name cs with
  | none => none
  | some (name, rest) =>
    match skip? rest with
    | some (':' :: rest) => ((skip? rest).bind value).map fun r => ((name, r.1), r.2)
    | _ => none

/-- Reads fields up to a closing mark, at most `count` of them. -/
def readFields? (name : List Char → Option (String × List Char)) (value : ValueReader) (mark : Char) :
    Nat → List Char → Option (List (String × Setting) × List Char)
  | 0, _ => none
  | count + 1, cs =>
    match skip? cs with
    | none | some [] => none
    | some (c :: rest) =>
      if c = mark then some ([], rest)
      else
        match readField? name value (c :: rest) with
        | none => none
        | some (f, rest) =>
          match comma? rest with
          | some (true, rest) => (readFields? name value mark count rest).map fun r => (f :: r.1, r.2)
          | some (false, c :: rest) => if c = mark then some ([f], rest) else none
          | _ => none

/-- Whether what stands behind an opening parenthesis begins with the name of a field. -/
def hasNames? (cs : List Char) : Option Bool :=
  match (skip? cs).map readName? with
  | none => none
  | some none => some false
  | some (some (_, rest)) =>
    match skip? rest with
    | some (c :: _) => some (c = ':')
    | _ => none

/-- Reads a structure or a tuple behind its name; a name alone is nothing. -/
def readStruct? (value : ValueReader) : List Char → Option (Setting × List Char)
  | '(' :: rest =>
    match hasNames? rest with
    | none => none
    | some true => (readFields? readName? value ')' (rest.length + 1) rest).map fun r =>
      (.table (Setting.lastOf r.1), r.2)
    | some false => (readItems? value ')' (rest.length + 1) rest).map fun r => (.list r.1, r.2)
  | cs => some (.nothing, cs)

/-- Reads the value of an optional one behind the word for it. -/
def readSome? (value : ValueReader) (cs : List Char) : Option (Setting × List Char) :=
  match skip? cs with
  | some ('(' :: rest) =>
    match (skip? rest).bind value with
    | none => none
    | some (v, rest) =>
      match comma? rest with
      | some (_, ')' :: rest) => some (v, rest)
      | _ => none
  | _ => none

/-- The values that are words. -/
def words : List (String × Setting) :=
  [("true", .flag true), ("false", .flag false), ("None", .nothing), ("inf", .decimal (.infinite false)),
    ("-inf", .decimal (.infinite true)), ("NaN", .decimal .notANumber)]

/-- Reads a word. -/
def readWord? (cs : List Char) : Option (Setting × List Char) :=
  words.findSome? fun w => (afterWord? w.1 cs).map (w.2, ·)

/-- Reads a value in which others nest at most this deep. -/
def readValue? : Nat → ValueReader
  | depth, cs =>
    let inner (cost : Nat) : ValueReader := match depth, cost with
      | depth + 1, 1 => readValue? depth
      | depth + 2, 2 => readValue? depth
      | _, _ => fun _ => none
    match readWord? cs, afterWord? "Some" cs, cs, readName? cs with
    | some r, _, _, _ => some r
    | none, some rest, _, _ => readSome? (inner 1) rest
    | none, none, '(' :: ')' :: rest, _ => some (.nothing, rest)
    | none, none, _, some (_, rest) => (skip? rest).bind (readStruct? (inner 2))
    | none, none, '(' :: rest, none => readStruct? (inner 2) ('(' :: rest)
    | none, none, '[' :: rest, none =>
      (readItems? (inner 2) ']' (rest.length + 1) rest).map fun r => (.list r.1, r.2)
    | none, none, '{' :: rest, none =>
      (readFields? readText? (inner 2) '}' (rest.length + 1) rest).map fun r =>
        (.table (Setting.lastOf r.1), r.2)
    | none, none, c :: rest, none =>
      if c.isDigit ∨ c = '+' ∨ c = '-' ∨ c = '.' then readNumber? (c :: rest)
      else (readText? (c :: rest)).map fun r => (.text r.1, r.2)
    | none, none, [], none => none

/-! ### Documents -/

/-- The extensions that a document may enable; none changes what its values come to. -/
def extensions : List String := ["unwrap_newtypes", "implicit_some", "unwrap_variant_newtypes"]

/-- Skips some marks with blanks behind each. -/
def skipMarks? : List String → List Char → Option (List Char)
  | [], cs => some cs
  | mark :: marks, cs =>
    if mark.toList.isPrefixOf cs then (skip? (cs.drop mark.length)).bind (skipMarks? marks) else none

/-- Skips the names of extensions, at most `count` of them. -/
def skipExtensions? : Nat → List Char → Option (List Char)
  | 0, _ => none
  | count + 1, cs =>
    match readName? cs with
    | none => none
    | some (name, rest) =>
      if name ∉ extensions then none
      else
        match comma? rest with
        | some (true, c :: rest) =>
          if isNameChar c then skipExtensions? count (c :: rest) else some (c :: rest)
        | some (false, rest) => some rest
        | _ => none

/-- Skips the attributes in front of a value, at most `count` of them. -/
def skipAttributes? : Nat → List Char → Option (List Char)
  | 0, _ => none
  | count + 1, '#' :: rest =>
    (((skipMarks? ["#", "!", "[", "enable", "("] ('#' :: rest)).bind
      (skipExtensions? (rest.length + 1))).bind (skipMarks? [")", "]"])).bind (skipAttributes? count)
  | _, cs => some cs

/-- The value that a text writes. -/
def parse? (s : String) : Option Setting := do
  let cs ← skip? s.toList
  let cs ← skipAttributes? (cs.length + 1) cs
  let (v, rest) ← readValue? maxDepth cs
  if (← skip? rest).isEmpty then some v else none

end EventRelay.Ron
