import EventRelay.Settings.Value
import EventRelay.Text.Integer
import EventRelay.Text.Lines
/-!
# Reading INI

Names with values behind an equals sign or a colon, under sections in brackets.  A comment begins in the
first column of its line.  A name goes up to its sign, also over several lines.  A value goes up to the
end of its line without the blanks around it; quoted parts in front keep theirs.  A backslash writes a
character.

All values are text.  Of sections that share a name the last counts, and so of names in a section.
-/

namespace EventRelay.Ini

/-- The character that a backslash and this character write, if any: at the end of a line none. -/
def shortEscape : Char → List Char
  | '0' => ['\x00']
  | 'a' => ['\x07']
  | 'b' => ['\x08']
  | 't' => ['\t']
  | 'r' => ['\r']
  | 'n' => ['\n']
  | '\n' => []
  | c => [c]

/-- Reads up to a character where a text stops.  It may also stop with the whole if `atEnd`.  `before`
holds the characters read, last first. -/
def readUntil? (stops : Char → Bool) (atEnd : Bool) (before : List Char) :
    List Char → Option (List Char × List Char)
  | [] => if atEnd then some (before.reverse, []) else none
  | '\\' :: 'x' :: a :: b :: c :: d :: rest =>
    match (Integer.nat? 16 [a, b, c, d]).bind Integer.char? with
    | none => none
    | some c => readUntil? stops atEnd (c :: before) rest
  | '\\' :: c :: rest =>
    if c = 'x' then none else readUntil? stops atEnd (shortEscape c ++ before) rest
  | c :: rest =>
    if stops c then some (before.reverse, c :: rest)
    else if c = '\\' then none
    else readUntil? stops atEnd (c :: before) rest

def endsLine (c : Char) : Bool := c = '\n' || c = '\r'

def trimEnd (cs : List Char) : List Char := (cs.reverse.dropWhile Text.isWhite).reverse

/-- Reads the parts of a value, at most `count` of them.  The blanks in front go only from the first. -/
def readParts? : Nat → Bool → List Char → Option (List Char × List Char)
  | 0, _, _ => none
  | _, _, [] => some ([], [])
  | count + 1, first, c :: rest =>
    if c = '"' ∨ c = '\'' then
      match readUntil? (· = c) false [] rest with
      | none => none
      | some (part, rest) =>
        (readParts? count false (rest.drop 1)).map fun r => (part ++ r.1, r.2)
    else
      (readUntil? endsLine true [] (c :: rest)).map fun r =>
        (if first then Text.trimChars r.1 else trimEnd r.1, r.2)

/-- Reads a value behind its sign. -/
def readValue? (cs : List Char) : Option (List Char × List Char) :=
  readParts? (cs.length + 1) true (cs.dropWhile fun c => Text.isWhite c && !endsLine c)

/-- A section, as far as it is read: its name, if it is not the general one, and its fields, the last
first. -/
structure Section where
  name : Option String
  fields : List (String × Setting)

/-- A document, as far as it is read: its last section, and those before it, the last first. -/
structure Document where
  last : Section
  before : List Section

/-- Whether what follows white space is first on its line, and what follows it. -/
def skipWhite (fresh : Bool) : List Char → Bool × List Char
  | [] => (fresh, [])
  | c :: rest => if Text.isWhite c then skipWhite (c = '\n') rest else (fresh, c :: rest)

/-- What follows the name of a field: its value. -/
def readField? (d : Document) (name : List Char) (cs : List Char) : Option (Document × List Char) :=
  if name.isEmpty then none
  else (readValue? cs).map fun r =>
    ({ d with last := { d.last with
        fields := (String.ofList name, .text (String.ofList r.1)) :: d.last.fields } }, r.2)

/-- Reads at most `count` comments, headers and fields, to the end.  `fresh` says whether what comes is
first on its line. -/
def readDocument? : Nat → Bool → Document → List Char → Option Document
  | 0, _, _, _ => none
  | count + 1, fresh, d, cs =>
    match skipWhite fresh cs with
    | (_, []) => some d
    | (_, '[' :: rest) =>
      match readUntil? (· = ']') false [] rest with
      | none => none
      | some (name, rest) =>
        readDocument? count false
          ⟨⟨some (String.ofList (Text.trimChars name)), []⟩, d.last :: d.before⟩ (rest.drop 1)
    | (fresh, c :: rest) =>
      if c = ';' ∨ c = '#' then
        if fresh then readDocument? count true d ((rest.dropWhile (· ≠ '\n')).drop 1) else none
      else
        match readUntil? (fun c => c = '=' || c = ':') false [] (c :: rest) with
        | none => none
        | some (name, rest) =>
          match readField? d (Text.trimChars name) (rest.drop 1) with
          | none => none
          | some (d, rest) => readDocument? count false d rest

/-- The fields of a section as they stand in the table of the document. -/
def Section.entries (s : Section) : List (String × Setting) :=
  match s.name with
  | none => s.fields.reverse
  | some name => [(name, .table (Setting.lastOf s.fields.reverse))]

/-- The settings that a document writes. -/
def parse? (s : String) : Option Setting :=
  let cs := s.toList
  (readDocument? (cs.length + 1) true ⟨⟨none, []⟩, []⟩ cs).map fun d =>
    .table (Setting.lastOf ((d.last :: d.before).reverse.flatMap Section.entries))

end EventRelay.Ini
