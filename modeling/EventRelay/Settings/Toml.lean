import EventRelay.Settings.Value
import EventRelay.Text.Integer
import EventRelay.Text.Lines
/-!
# Reading TOML

TOML 1.0: lines that give a name a value, under headers that name tables.  A document is built up as a
tree in which every table remembers how it came about, because that decides who may still add to it:
a table is headed once, a table made by dotted names is open to dotted names only, and an inline table
to nobody.  Dates and times are kept as text.

A table can also write a date or a time as text: under a name kept for it, and in front of all else.
-/

namespace EventRelay.Toml

/-- How deep arrays and inline tables may nest, and how many names a dotted name may have. -/
def maxDepth : Nat := 79

/-! ### Blanks -/

def isSpace (c : Char) : Bool := c = ' ' || c = '\t'

def skipSpaces (cs : List Char) : List Char := cs.dropWhile isSpace

/-- Characters that may stand in comments and in strings on one line. -/
def isText (c : Char) : Bool := c = '\t' || (0x20 ≤ c.toNat && c.toNat ≠ 0x7f)

/-- Skips a comment, which goes to the end of its line. -/
def skipComment : List Char → List Char
  | '#' :: rest => rest.dropWhile isText
  | cs => cs

/-- What follows a line of which only blanks and a comment are left. -/
def nextLine? (cs : List Char) : Option (List Char) :=
  match skipComment (skipSpaces cs) with
  | [] => some []
  | '\n' :: rest => some rest
  | '\r' :: '\n' :: rest => some rest
  | _ => none

/-- Skips blanks, comments and ends of lines, at most `count` of them. -/
def skipGaps : Nat → List Char → List Char
  | 0, cs => cs
  | count + 1, cs =>
    match cs with
    | ' ' :: rest | '\t' :: rest | '\n' :: rest | '\r' :: '\n' :: rest => skipGaps count rest
    | '#' :: rest => skipGaps count (rest.dropWhile isText)
    | cs => cs

def skipAllGaps (cs : List Char) : List Char := skipGaps cs.length cs

/-! ### Strings -/

/-- The character that a backslash and these characters write, with what follows. -/
def escape? : List Char → Option (Char × List Char)
  | 'b' :: rest => some ('\x08', rest)
  | 't' :: rest => some ('\t', rest)
  | 'n' :: rest => some ('\n', rest)
  | 'f' :: rest => some ('\x0c', rest)
  | 'r' :: rest => some ('\r', rest)
  | '"' :: rest => some ('"', rest)
  | '\\' :: rest => some ('\\', rest)
  | 'u' :: rest => Integer.escaped? 4 rest
  | 'U' :: rest => Integer.escaped? 8 rest
  | _ => none

/-- Reads a string up to its closing quote.  `count` bounds the characters, `before` holds those read,
last first. -/
def readBasic? : Nat → List Char → List Char → Option (String × List Char)
  | 0, _, _ => none
  | count + 1, before, cs =>
    match cs with
    | '"' :: rest => some (String.ofList before.reverse, rest)
    | '\\' :: rest =>
      match escape? rest with
      | none => none
      | some (c, rest) => readBasic? count (c :: before) rest
    | c :: rest => if isText c then readBasic? count (c :: before) rest else none
    | [] => none

/-- Reads a string without escapes up to its closing quote. -/
def readLiteral? (cs : List Char) : Option (String × List Char) :=
  match cs.dropWhile fun c => isText c && c ≠ '\'' with
  | '\'' :: rest => some (String.ofList (cs.takeWhile fun c => isText c && c ≠ '\''), rest)
  | _ => none

/-- Reads a string of several lines up to three closing quotes; one or two quotes more belong to it. -/
def readLong? (quote : Char) (escapes : Bool) : Nat → List Char → List Char → Option (String × List Char)
  | 0, _, _ => none
  | count + 1, before, cs =>
    let more := readLong? quote escapes count
    match cs with
    | '\r' :: '\n' :: rest => more ('\n' :: before) rest
    | '\n' :: rest => more ('\n' :: before) rest
    | '\\' :: rest =>
      if !escapes then more ('\\' :: before) rest
      else
        match escape? rest with
        | some (c, rest) => more (c :: before) rest
        | none =>
          match skipSpaces rest with
          | '\n' :: rest | '\r' :: '\n' :: rest =>
            more before (rest.dropWhile fun c => isSpace c || c = '\n' || c = '\r')
          | _ => none
    | c :: rest =>
      if c = quote ∧ rest.take 2 = [quote, quote] then
        let extra := ((rest.drop 2).take 2).takeWhile (· = quote)
        some (String.ofList (before.reverse ++ extra), rest.drop (2 + extra.length))
      else if isText c then more (c :: before) rest
      else none
    | [] => none

/-- A line feed right behind the opening quotes does not count. -/
def skipFirstBreak : List Char → List Char
  | '\n' :: rest | '\r' :: '\n' :: rest => rest
  | cs => cs

/-- Reads a string; `none` also if there is none. -/
def readString? : List Char → Option (String × List Char)
  | '"' :: '"' :: '"' :: rest => readLong? '"' true (rest.length + 1) [] (skipFirstBreak rest)
  | '\'' :: '\'' :: '\'' :: rest => readLong? '\'' false (rest.length + 1) [] (skipFirstBreak rest)
  | '"' :: rest => readBasic? (rest.length + 1) [] rest
  | '\'' :: rest => readLiteral? rest
  | _ => none

/-! ### Names -/

def isBare (c : Char) : Bool := c.isAlphanum || c = '_' || c = '-'

/-- Reads one name, quoted or bare. -/
def readName? : List Char → Option (String × List Char)
  | '"' :: rest => readBasic? (rest.length + 1) [] rest
  | '\'' :: rest => readLiteral? rest
  | cs =>
    let name := cs.takeWhile isBare
    if name.isEmpty then none else some (String.ofList name, cs.dropWhile isBare)

/-- Reads names with points between them, at most `count`. -/
def readNames? : Nat → List Char → Option (List String × List Char)
  | 0, _ => none
  | count + 1, cs =>
    match readName? cs with
    | none => none
    | some (name, rest) =>
      match skipSpaces rest with
      | '.' :: rest =>
        match readNames? count (skipSpaces rest) with
        | none => none
        | some (names, rest) => some (name :: names, rest)
      | rest => some ([name], rest)

/-- Reads a dotted name. -/
def readKey? (cs : List Char) : Option (List String × List Char) := readNames? maxDepth (skipSpaces cs)

/-! ### Numbers, dates and words -/

/-- The digits of a number; underscores may stand between two of them. -/
def digits? (isDigit : Char → Bool) (cs : List Char) : Option (List Char) :=
  if (Text.pieces '_' cs).all fun p => !p.isEmpty && p.all isDigit then some (cs.filter (· ≠ '_'))
  else none

/-- The digits in front of the point; no zero leads. -/
def wholeDigits? (cs : List Char) : Option (List Char) :=
  match digits? Char.isDigit cs with
  | some ('0' :: _ :: _) => none
  | r => r

/-- An integer, if it fits in a signed word. -/
def integer? (n : Int) : Option Setting :=
  if Decimal.isSignedWord n then some (.integer n) else none

/-- The integer that digits of a base write. -/
def inBase? (base : Nat) (cs : List Char) : Option Setting :=
  ((digits? (fun c => (Integer.digit? base c).isSome) cs).bind (Integer.nat? base)).bind fun n => integer? n

/-- A decimal integer, or a number with a fraction or an exponent. -/
def decimal? (cs : List Char) : Option Setting := do
  let (negative, cs) := Integer.sign cs
  let isMark (c : Char) : Bool := c = 'e' || c = 'E'
  let mantissa := cs.takeWhile fun c => !isMark c
  let whole ← wholeDigits? (mantissa.takeWhile (· ≠ '.'))
  let fraction ← match mantissa.dropWhile (· ≠ '.') with
    | [] => some []
    | _ :: fraction => digits? Char.isDigit fraction
  let n ← Decimal.natOfDigits? (whole ++ fraction)
  match cs.dropWhile fun c => !isMark c with
  | [] =>
    if fraction.isEmpty then integer? (Integer.signed negative n)
    else finite? (Double.ofDecimal negative n (-fraction.length))
  | _ :: exponent =>
    let (down, digits) := Integer.sign exponent
    let e ← (digits? Char.isDigit digits).bind Decimal.natOfDigits?
    finite? (Double.ofDecimal negative n (Integer.signed down e - fraction.length))
where
  /-- A number too large for a double is refused. -/
  finite? (x : Double) : Option Setting := if x = .infinite false then none else some (.decimal x)

/-- A number of two digits between bounds. -/
def twoDigits? (low high : Nat) (cs : List Char) : Option Nat :=
  if cs.length ≠ 2 then none
  else (Decimal.natOfDigits? cs).bind fun n => if low ≤ n ∧ n ≤ high then some n else none

def daysOf (year month : Nat) : Nat :=
  if month = 2 then if year % 4 = 0 ∧ (year % 100 ≠ 0 ∨ year % 400 = 0) then 29 else 28
  else if month ∈ [4, 6, 9, 11] then 30
  else 31

/-- Whether these ten characters are a date. -/
def isDate (cs : List Char) : Bool :=
  match cs with
  | [a, b, c, d, '-', m, n, '-', x, y] => Option.isSome do
    let year ← Decimal.natOfDigits? [a, b, c, d]
    let month ← twoDigits? 1 12 [m, n]
    twoDigits? 1 (daysOf year month) [x, y]
  | _ => false

/-- Whether these eight characters are a time of day. -/
def isTime (cs : List Char) : Bool :=
  match cs with
  | [a, b, ':', c, d, ':', e, f] =>
    (twoDigits? 0 23 [a, b]).isSome && (twoDigits? 0 59 [c, d]).isSome && (twoDigits? 0 60 [e, f]).isSome
  | _ => false

/-- The text of a fraction of a second, to the nanosecond and without zeros at its end. -/
def fractionText (digits : List Char) : List Char :=
  match ((digits.take 9).reverse.dropWhile (· = '0')).reverse with
  | [] => []
  | cs => '.' :: cs

/-- Two digits at least. -/
def twoDigits (n : Nat) : List Char :=
  if n < 10 then '0' :: Nat.toDigits 10 n else Nat.toDigits 10 n

/-- The text of an offset from universal time in hours and minutes. -/
def offset? (maxHours maxMinutes : Nat) : List Char → Option (List Char)
  | [] => some []
  | ['Z'] | ['z'] => some ['Z']
  | [mark, a, b, ':', c, d] =>
    if mark = '+' ∨ mark = '-' then do
      let hours ← twoDigits? 0 maxHours [a, b]
      let minutes ← twoDigits? 0 maxMinutes [c, d]
      let total := hours * 60 + minutes
      if 24 * 60 < total then none
      else return (if total = 0 then '+' else mark) ::
        (twoDigits (total / 60) ++ ':' :: twoDigits (total % 60))
    else none
  | _ => none

/-- The text of a time of day and, behind a date, of an offset. -/
def timeText? (offset? : Option (List Char → Option (List Char))) (cs : List Char) :
    Option (List Char) :=
  if !isTime (cs.take 8) then none
  else do
    let (fraction, rest) ← match cs.drop 8 with
      | '.' :: rest =>
        let digits := rest.takeWhile Char.isDigit
        if digits.isEmpty then none else some (fractionText digits, rest.dropWhile Char.isDigit)
      | rest => some ([], rest)
    match offset? with
    | some offset? => return cs.take 8 ++ fraction ++ (← offset? rest)
    | none => if rest.isEmpty then some (cs.take 8 ++ fraction) else none

/-- The text of a date, a time or both. -/
def dateText? (offset? : List Char → Option (List Char)) (cs : List Char) : Option (List Char) :=
  if isDate (cs.take 10) then
    match cs.drop 10 with
    | [] => some (cs.take 10)
    | mark :: rest =>
      if mark = 'T' || mark = 't' || mark = ' ' then
        (timeText? offset? rest).map fun time => cs.take 10 ++ 'T' :: time
      else none
  else timeText? none cs

/-- The date or the time that a word is. -/
def date? (cs : List Char) : Option Setting :=
  (dateText? (offset? 23 59) cs).map fun t => .text (String.ofList t)

/-- The date or the time that a text writes; its offset need not be one of a clock. -/
def writtenDate? (s : String) : Option Setting :=
  (dateText? (offset? 99 99) s.toList).map fun t => .text (String.ofList t)

/-- The characters of numbers, dates and words. -/
def isWordChar (c : Char) : Bool :=
  c.isAlphanum || c = '_' || c = '+' || c = '-' || c = '.' || c = ':'

/-- The value of a word. -/
def wordValue? (cs : List Char) : Option Setting :=
  match String.ofList cs with
  | "true" => some (.flag true)
  | "false" => some (.flag false)
  | "inf" | "+inf" => some (.decimal (.infinite false))
  | "-inf" => some (.decimal (.infinite true))
  | "nan" | "+nan" | "-nan" => some (.decimal .notANumber)
  | _ =>
    match cs with
    | '0' :: 'x' :: digits => inBase? 16 digits
    | '0' :: 'o' :: digits => inBase? 8 digits
    | '0' :: 'b' :: digits => inBase? 2 digits
    | _ => (decimal? cs).or (date? cs)

/-- Reads a word.  A blank may stand between a date and a time. -/
def readWord? (cs : List Char) : Option (Setting × List Char) :=
  let word := cs.takeWhile isWordChar
  let rest := cs.dropWhile isWordChar
  match rest with
  | ' ' :: more =>
    if isDate word && isTime (more.take 8) then
      let time := more.takeWhile isWordChar
      (wordValue? (word ++ ' ' :: time)).map (·, more.dropWhile isWordChar)
    else (wordValue? word).map (·, rest)
  | _ => (wordValue? word).map (·, rest)

/-! ### Tables -/

/-- How a table came about. -/
inductive Origin where
  /-- A header named a table below it. -/
  | implied
  /-- A header named it. -/
  | headed
  /-- Dotted names led through it. -/
  | dotted
  deriving DecidableEq

inductive Node where
  | value (v : Setting)
  | table (origin : Origin) (fields : List (String × Node))
  /-- A list of tables, one to a header, the last first. -/
  | tables (items : List (List (String × Node)))

abbrev Fields := List (String × Node)

namespace Fields

def get? (fields : Fields) (name : String) : Option Node := (fields.find? (·.1 = name)).map Prod.snd

/-- Puts a node in the place of the earlier one of its name, or else last. -/
def put (fields : Fields) (name : String) (n : Node) : Fields :=
  if fields.any (·.1 = name) then fields.map fun x => if x.1 = name then (name, n) else x
  else fields ++ [(name, n)]

/-- Gives a dotted name a value.  Tables that headers made may be passed on the way, but the last one
must be open to dotted names. -/
def assign? (v : Setting) : List String → Fields → Option Fields
  | [], _ => none
  | [name], fields =>
    match fields.get? name with
    | none => some (fields.put name (.value v))
    | some _ => none
  | name :: rest, fields =>
    match fields.get? name with
    | none => (assign? v rest []).map fun inner => fields.put name (.table .dotted inner)
    | some (.table .dotted inner) =>
      (assign? v rest inner).map fun inner => fields.put name (.table .dotted inner)
    | some (.table .implied inner) =>
      if rest.length < 2 then none
      else (assign? v rest inner).map fun inner => fields.put name (.table .implied inner)
    | some (.tables (last :: before)) =>
      if rest.length < 2 then none
      else (assign? v rest last).map fun last => fields.put name (.tables (last :: before))
    | some _ => none

/-- Changes the table at the end of a path; of a list of tables the last one is meant. -/
def within? (change : Fields → Option Fields) : List String → Fields → Option Fields
  | [], fields => change fields
  | name :: path, fields =>
    match fields.get? name with
    | none => (within? change path []).map fun inner => fields.put name (.table .implied inner)
    | some (.table origin inner) =>
      (within? change path inner).map fun inner => fields.put name (.table origin inner)
    | some (.tables (last :: before)) =>
      (within? change path last).map fun last => fields.put name (.tables (last :: before))
    | some _ => none

/-- Opens the table that a header names.  It stands behind those opened before. -/
def head? (name : String) (fields : Fields) : Option Fields :=
  match fields.get? name with
  | none => some (fields.put name (.table .headed []))
  | some (.table .implied inner) => some (fields.filter (·.1 ≠ name) ++ [(name, .table .headed inner)])
  | some _ => none

/-- Opens one more table of the list that a header names. -/
def append? (name : String) (fields : Fields) : Option Fields :=
  match fields.get? name with
  | none => some (fields.put name (.tables [[]]))
  | some (.tables items) => some (fields.put name (.tables ([] :: items)))
  | some _ => none

end Fields

mutual

/-- What a node comes to once the document is complete. -/
def Node.setting : Node → Setting
  | .value v => v
  | .table _ fields => .table (settingsOf fields)
  | .tables items => .list (listOf items [])

def settingsOf : List (String × Node) → List (String × Setting)
  | [] => []
  | (name, n) :: rest => (name, n.setting) :: settingsOf rest

/-- The tables of a list in order, in front of `after`. -/
def listOf : List (List (String × Node)) → List Setting → List Setting
  | [], after => after
  | fields :: before, after => listOf before (.table (settingsOf fields) :: after)

end

/-! ### Values -/

abbrev ValueReader := List Char → Option (Setting × List Char)

/-- Reads the items of an array up to the closing bracket, at most `count` of them. -/
def readItems? (value : ValueReader) : Nat → List Char → Option (List Setting × List Char)
  | 0, _ => none
  | count + 1, cs =>
    match skipAllGaps cs with
    | ']' :: rest => some ([], rest)
    | cs =>
      match value cs with
      | none => none
      | some (v, rest) =>
        match skipAllGaps rest with
        | ']' :: rest => some ([v], rest)
        | ',' :: rest =>
          match readItems? value count rest with
          | none => none
          | some (vs, rest) => some (v :: vs, rest)
        | _ => none

/-- Reads a dotted name, an equals sign and a value. -/
def readPair? (value : ValueReader) (cs : List Char) : Option ((List String × Setting) × List Char) :=
  match readKey? cs with
  | none => none
  | some (path, rest) =>
    match skipSpaces rest with
    | '=' :: rest => (value (skipSpaces rest)).map fun r => ((path, r.1), r.2)
    | _ => none

/-- Reads the pairs of an inline table up to the closing brace, at most `count` of them. -/
def readPairs? (value : ValueReader) : Nat → Fields → List Char → Option (Fields × List Char)
  | 0, _, _ => none
  | count + 1, fields, cs =>
    match readPair? value cs with
    | none => none
    | some ((path, v), rest) =>
      match Fields.assign? v path fields with
      | none => none
      | some fields =>
        match skipSpaces rest with
        | '}' :: rest => some (fields, rest)
        | ',' :: rest => readPairs? value count fields rest
        | _ => none

/-- Reads a value in which arrays and inline tables nest at most this deep. -/
def readValue? : Nat → ValueReader
  | _, '"' :: rest => (readString? ('"' :: rest)).map fun r => (.text r.1, r.2)
  | _, '\'' :: rest => (readString? ('\'' :: rest)).map fun r => (.text r.1, r.2)
  | depth + 1, '[' :: rest =>
    (readItems? (readValue? depth) (rest.length + 1) rest).map fun r => (.list r.1, r.2)
  | depth + 1, '{' :: rest =>
    match skipSpaces rest with
    | '}' :: rest => some (.table [], rest)
    | rest => (readPairs? (readValue? depth) (rest.length + 1) [] rest).map fun r =>
      (.table (settingsOf r.1), r.2)
  | _, cs => readWord? cs

/-! ### Documents -/

/-- A document, as far as it is read. -/
structure Document where
  fields : Fields
  /-- The path of the last header. -/
  path : List String

/-- Reads a header behind its opening bracket or brackets. -/
def readHeader? (list : Bool) (d : Document) (cs : List Char) : Option (Document × List Char) :=
  match readKey? cs with
  | none => none
  | some (path, rest) =>
    let opened := Fields.within? ((if list then Fields.append? else Fields.head?) (path.getLast?.getD ""))
      path.dropLast d.fields
    let after := match list, skipSpaces rest with
      | false, ']' :: rest => some rest
      | true, ']' :: ']' :: rest => some rest
      | _, _ => none
    match opened, after with
    | some fields, some rest => some (⟨fields, path⟩, rest)
    | _, _ => none

/-- Reads one line, or several if a value stretches over them. -/
def readLine? (d : Document) (cs : List Char) : Option (Document × List Char) :=
  match skipSpaces cs with
  | '[' :: '[' :: rest => readHeader? true d rest
  | '[' :: rest => readHeader? false d rest
  | [] => some (d, [])
  | c :: rest =>
    if c = '#' || c = '\n' || c = '\r' then some (d, c :: rest)
    else
      match readPair? (readValue? maxDepth) (c :: rest) with
      | none => none
      | some ((path, v), rest) =>
        (Fields.within? (Fields.assign? v path) d.path d.fields).map fun fields => ({ d with fields }, rest)

/-- Reads at most `count` lines, to the end. -/
def readLines? : Nat → Document → List Char → Option Document
  | _, d, [] => some d
  | 0, _, _ => none
  | count + 1, d, cs =>
    match readLine? d cs with
    | none => none
    | some (d, rest) =>
      match nextLine? rest with
      | none => none
      | some rest => readLines? count d rest

/-- The name under which a table writes a date or a time. -/
def dateName : String := "$__toml_private_datetime"

mutual

/-- A value with the dates and times that tables in it write. -/
def dated? : Setting → Option Setting
  | .list items => (datedItems? items).map .list
  | .table fields =>
    match fields.head? with
    | some (name, v) =>
      if name = dateName then v.text?.bind writtenDate? else (datedFields? fields).map .table
    | none => some (.table [])
  | v => some v

def datedItems? : List Setting → Option (List Setting)
  | [] => some []
  | v :: rest =>
    match dated? v, datedItems? rest with
    | some v, some rest => some (v :: rest)
    | _, _ => none

def datedFields? : List (String × Setting) → Option (List (String × Setting))
  | [] => some []
  | (name, v) :: rest =>
    match dated? v, datedFields? rest with
    | some v, some rest => some ((name, v) :: rest)
    | _, _ => none

end

/-- The settings that a document writes. -/
def parse? (s : String) : Option (List (String × Setting)) :=
  let cs := match s.toList with
    | '\ufeff' :: rest => rest
    | cs => cs
  let written? := (readLines? (cs.length + 1) ⟨[], []⟩ cs).map fun d => Setting.table (settingsOf d.fields)
  match written?.bind dated? with
  | some (.table fields) => some fields
  | _ => none

end EventRelay.Toml
