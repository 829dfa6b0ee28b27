/-!
# Tokens of YAML

What a document consists of, and a reader's place in it.  Lines and columns matter: blocks are made by
indentation, so the place holds the columns of the blocks that are open.

A scalar, an alias or a flow collection may turn out to be a key, when a colon follows it.  Until then
the place remembers, for every level of nesting in flow collections, the last token that could be one.
-/

namespace EventRelay.Yaml

inductive Token where
  | version
  /-- A handle and what it stands for in tags. -/
  | handle (name meaning : String)
  | documentStart
  | documentEnd
  | blockList
  | blockTable
  | blockEnd
  | flowList
  | flowListEnd
  | flowTable
  | flowTableEnd
  | item
  | comma
  | key
  | value
  | alias (name : String)
  | anchor (name : String)
  | tag (handle suffix : String)
  | scalar (plain : Bool) (text : String)
  deriving DecidableEq

/-! ### Characters -/

def isBlank (c : Char) : Bool := c = ' ' || c = '\t'

def isBreak (c : Char) : Bool := c = '\n' || c = '\r'

/-- The marks of flow collections. -/
def isFlow (c : Char) : Bool := c = ',' || c = '[' || c = ']' || c = '{' || c = '}'

/-- Whether a line ends here. -/
def endsLine (cs : List Char) : Bool := !cs.head?.any fun c => !isBreak c

/-- Whether a word ends here. -/
def endsWord (cs : List Char) : Bool := !cs.head?.any fun c => !isBreak c && !isBlank c

/-- Whether a line begins with the mark of a document's start or end. -/
def isDocumentMark (cs : List Char) : Bool :=
  (cs.take 3 = ['-', '-', '-'] || cs.take 3 = ['.', '.', '.']) && endsWord (cs.drop 3)

/-! ### Places -/

/-- A token that may turn out to be a key. -/
structure Candidate where
  /-- How many tokens stand in front of it. -/
  number : Nat
  index : Nat
  line : Nat
  col : Nat
  /-- It stands where only a key can stand. -/
  required : Bool

/-- A level of indentation that is left behind: its column, and whether the one above it is a block. -/
structure Level where
  col : Int
  isBlock : Bool

/-- A reader's place in a document. -/
structure Place where
  rest : List Char
  index : Nat
  line : Nat
  col : Nat
  /-- Only blanks stand in front on this line. -/
  fresh : Bool
  /-- The tokens read so far, the last first. -/
  tokens : List Token
  /-- Where a value may stand right behind its colon. -/
  adjacent : Nat
  keysAllowed : Bool
  /-- The candidates for keys of each level of flow collections, the innermost first. -/
  keys : List (Option Candidate)
  /-- The column of the innermost block; -1 outside of all. -/
  indent : Int
  levels : List Level
  /-- The flow collections that are open, the innermost first; whether each is a list. -/
  flows : List Bool
  /-- The column of the last anchor, alias or tag. -/
  mark : Nat

namespace Place

def start (cs : List Char) : Place where
  rest := cs
  index := 0
  line := 1
  col := 0
  fresh := true
  tokens := []
  adjacent := 0
  keysAllowed := true
  keys := [none]
  indent := -1
  levels := []
  flows := []
  mark := 0

/-- Passes blanks. -/
def passBlanks (p : Place) (n : Nat) : Place :=
  { p with rest := p.rest.drop n, index := p.index + n, col := p.col + n }

/-- Passes characters of a line. -/
def pass (p : Place) (n : Nat) : Place := { p.passBlanks n with fresh := p.fresh && n = 0 }

/-- Passes the end of a line. -/
def passBreak (p : Place) : Place :=
  let n := if p.rest.take 2 = ['\r', '\n'] then 2 else 1
  { p with rest := p.rest.drop n, index := p.index + n, line := p.line + 1, col := 0, fresh := true }

/-- Passes what is left of a line. -/
def passLine (p : Place) : Place := p.pass (p.rest.takeWhile fun c => !isBreak c).length

/-- Passes blanks, and a comment behind one; what was passed of blanks. -/
def passGap? (tabs : Bool) (p : Place) : Option (List Char × Place) :=
  let blanks := p.rest.takeWhile fun c => c = ' ' || (tabs && c = '\t')
  let p := p.passBlanks blanks.length
  if p.rest.head? = some '#' then if blanks.isEmpty then none else some (blanks, p.passLine)
  else some (blanks, p)

/-- Passes blanks and a comment. -/
def toGapEnd? (tabs : Bool) (p : Place) : Option Place := (p.passGap? tabs).map Prod.snd

/-- Passes all that stands between two tokens, at most `count` times.  A tab does not indent a block. -/
def passGaps? : Nat → Place → Option Place
  | 0, p => some p
  | count + 1, p =>
    match p.rest with
    | '\t' :: _ =>
      if !p.levels.isEmpty && p.fresh && (p.col : Int) < p.indent then
        match p.toGapEnd? true with
        | some p => if endsLine p.rest then passGaps? count p else none
        | none => none
      else passGaps? count (p.passBlanks 1)
    | ' ' :: _ => passGaps? count (p.passBlanks 1)
    | '#' :: _ => passGaps? count p.passLine
    | '\n' :: _ | '\r' :: _ =>
      let p := p.passBreak
      passGaps? count { p with keysAllowed := p.keysAllowed || p.flows.isEmpty }
    | _ => some p

def toToken? (p : Place) : Option Place := passGaps? p.rest.length p

def push (p : Place) (t : Token) : Place := { p with tokens := t :: p.tokens }

/-- Puts a token behind the first so many. -/
def insert (p : Place) (number : Nat) (t : Token) : Place :=
  let later := p.tokens.length - number
  { p with tokens := p.tokens.take later ++ t :: p.tokens.drop later }

def saveMark (p : Place) : Place := { p with mark := p.col }

def allowKeys (p : Place) (b : Bool) : Place := { p with keysAllowed := b }

/-! ### Candidates for keys -/

/-- Remembers the token that comes as one that may be a key. -/
def saveKey (p : Place) : Place :=
  if p.keysAllowed then
    let required := p.flows.isEmpty && p.indent = p.col && (p.levels.head?.any Level.isBlock)
    { p with keys := some ⟨p.tokens.length, p.index, p.line, p.col, required⟩ :: p.keys.drop 1 }
  else p

/-- Forgets the candidate, unless only a key could stand there. -/
def dropKey? (p : Place) : Option Place :=
  match p.keys with
  | some k :: keys => if k.required then none else some { p with keys := none :: keys }
  | _ => some p

/-- How far behind a key its colon may stand. -/
def maxKeySize : Nat := 1024

/-- Outside of flow collections a key is on one line, and not too long. -/
def dropStale? (p : Place) : Option Place :=
  match p.keys with
  | some k :: _ =>
    if p.flows.isEmpty && (k.line < p.line || k.index + maxKeySize < p.index) then p.dropKey? else some p
  | _ => some p

/-! ### Indentation -/

/-- Leaves the levels to the right of a column; each block among them ends. -/
def leaveLevels (p : Place) (col : Int) : List Level → Place
  | [] => p
  | l :: levels =>
    if col < p.indent then
      let p := { p with indent := l.col, levels }
      leaveLevels (if l.isBlock then p.push .blockEnd else p) col levels
    else p

/-- Leaves the blocks to the right of a column.  In flow collections there are none. -/
def leave (p : Place) (col : Int) : Place := if p.flows.isEmpty then leaveLevels p col p.levels else p

/-- Leaves a level that is no block. -/
def leaveHalf (p : Place) : Place :=
  match p.levels with
  | l :: levels => if l.isBlock then p else { p with indent := l.col, levels }
  | [] => p

/-- Enters a block at a column, unless it is the innermost one; its token goes behind the first so
many. -/
def enter (p : Place) (col : Nat) (number : Nat) (t : Token) : Place :=
  if !p.flows.isEmpty then p
  else
    let p := if p.indent ≤ col then p.leaveHalf else p
    if p.indent < col then
      { p.insert number t with indent := col, levels := ⟨p.indent, true⟩ :: p.levels }
    else p

/-- Enters a level one column to the right, which is no block. -/
def enterHalf (p : Place) : Place :=
  if p.flows.isEmpty && (p.levels.head?.any Level.isBlock) then
    { p with indent := p.indent + 1, levels := ⟨p.indent, false⟩ :: p.levels }
  else p

end Place

end EventRelay.Yaml
