import EventRelay.Settings.Yaml.Token
import EventRelay.Text.Integer
/-!
# Scalars of YAML

Scalars go over several lines.  In plain and quoted ones a line break between two lines is a blank, and
of several breaks the first does not count; the blanks around them are dropped.  Blocks of text keep
their lines, unless they are folded the same way.
-/

namespace EventRelay.Yaml

/-- What stands between two words of a scalar. -/
structure Gap where
  /-- The blanks, the last first, as long as the line goes on. -/
  blanks : List Char
  /-- Whether the line has ended. -/
  broken : Bool
  /-- How many more have ended. -/
  breaks : Nat

namespace Gap

def none : Gap := ⟨[], false, 0⟩

/-- One more end of a line. -/
def addBreak (g : Gap) (again : Bool) : Gap :=
  if again then { g with breaks := g.breaks + 1 } else ⟨[], true, g.breaks⟩

/-- What the gap comes to, the last character first.  `folded` says that the next word is on another
line. -/
def text (g : Gap) (folded : Bool) : List Char :=
  if !folded then g.blanks
  else if g.broken && g.breaks = 0 then [' ']
  else List.replicate g.breaks '\n'

end Gap

namespace Place

/-! ### Plain scalars -/

/-- The characters of a plain scalar up to a blank, and up to what ends it. -/
def plainWord (inFlow : Bool) : List Char → List Char
  | [] => []
  | c :: rest =>
    if isBlank c || isBreak c then []
    else if c = ':' && (endsWord rest || (inFlow && rest.head?.any isFlow)) then []
    else if inFlow && isFlow c then []
    else c :: plainWord inFlow rest

/-- Passes the gap behind a word of a plain scalar, at most `count` characters. -/
def passPlainGap? (indent : Int) : Nat → Gap → Place → Option (Gap × Place)
  | 0, g, p => some (g, p)
  | count + 1, g, p =>
    match p.rest with
    | [] => some (g, p)
    | c :: _ =>
      if isBreak c then passPlainGap? indent count (g.addBreak p.fresh) p.passBreak
      else if !isBlank c then some (g, p)
      else if !p.fresh then passPlainGap? indent count { g with blanks := c :: g.blanks } (p.passBlanks 1)
      else if (p.col : Int) < indent && c = '\t' then
        match p.toGapEnd? true with
        | some p => if endsLine p.rest then passPlainGap? indent count g p else none
        | none => none
      else passPlainGap? indent count g (p.passBlanks 1)

/-- Reads the words of a plain scalar, at most `count` of them; `before` holds what is read, the last
character first. -/
def readPlain? (indent : Int) : Nat → Gap → List Char → Place → Option (List Char × Place)
  | 0, _, before, p => some (before, p)
  | count + 1, g, before, p =>
    let inFlow := !p.flows.isEmpty
    let word := plainWord inFlow p.rest
    if (p.col = 0 && isDocumentMark p.rest) || p.rest.head? = some '#' then some (before, p)
    else if inFlow && p.rest.head? = some '-' && (p.rest.drop 1).head?.any isFlow then none
    else
      let before := if word.isEmpty then before else word.reverse ++ (g.text p.fresh ++ before)
      let g := if word.isEmpty then g else .none
      let p := p.pass word.length
      if !p.rest.head?.any fun c => isBlank c || isBreak c then some (before, p)
      else
        match passPlainGap? indent p.rest.length g p with
        | none => none
        | some (g, p) =>
          if !inFlow && (p.col : Int) < indent then some (before, p) else readPlain? indent count g before p

/-- Reads a plain scalar; it has at least one character. -/
def scanPlain? (p : Place) : Option Place :=
  let p := p.leaveHalf
  let indent := p.indent + 1
  if !p.flows.isEmpty && (p.col : Int) < indent then none
  else
    match readPlain? indent (p.rest.length + 1) .none [] p with
    | none | some ([], _) => none
    | some (text, p) =>
      let p := { p with keysAllowed := p.keysAllowed || p.fresh }
      some (p.push (.scalar true (String.ofList text.reverse)))

/-! ### Quoted scalars -/

/-- The character that a backslash and these characters write, and how many they are. -/
def escape? : List Char → Option (Char × Nat)
  | '0' :: _ => some ('\x00', 1)
  | 'a' :: _ => some ('\x07', 1)
  | 'b' :: _ => some ('\x08', 1)
  | 't' :: _ | '\t' :: _ => some ('\t', 1)
  | 'n' :: _ => some ('\n', 1)
  | 'v' :: _ => some ('\x0b', 1)
  | 'f' :: _ => some ('\x0c', 1)
  | 'r' :: _ => some ('\r', 1)
  | 'e' :: _ => some ('\x1b', 1)
  | 'N' :: _ => some ('\x85', 1)
  | '_' :: _ => some ('\xa0', 1)
  | 'L' :: _ => some ('\u2028', 1)
  | 'P' :: _ => some ('\u2029', 1)
  | 'x' :: rest => (Integer.escaped? 2 rest).map fun r => (r.1, 3)
  | 'u' :: rest => (Integer.escaped? 4 rest).map fun r => (r.1, 5)
  | 'U' :: rest => (Integer.escaped? 8 rest).map fun r => (r.1, 9)
  | c :: _ => if c = ' ' || c = '"' || c = '/' || c = '\\' then some (c, 1) else none
  | [] => none

/-- Reads a word of a quoted scalar.  Whether an escaped end of a line ends it. -/
def readQuotedWord? (quote : Char) : Nat → List Char → Place → Option (List Char × Bool × Place)
  | 0, before, p => some (before, false, p)
  | count + 1, before, p =>
    match p.rest with
    | [] => some (before, false, p)
    | c :: rest =>
      if isBlank c || isBreak c then some (before, false, p)
      else if c = quote then
        if quote = '\'' && rest.head? = some quote then readQuotedWord? quote count (c :: before) (p.pass 2)
        else some (before, false, p)
      else if c = '\\' && quote = '"' then
        if rest.head?.any isBreak then some (before, true, (p.pass 1).passBreak)
        else
          match escape? rest with
          | none => none
          | some (c, n) => readQuotedWord? quote count (c :: before) (p.pass (n + 1))
      else readQuotedWord? quote count (c :: before) (p.pass 1)

/-- Passes the gap behind a word of a quoted scalar.  `folded` says whether its line has ended. -/
def passQuotedGap? : Nat → Bool → Gap → Place → Option (Bool × Gap × Place)
  | 0, folded, g, p => some (folded, g, p)
  | count + 1, folded, g, p =>
    match p.rest with
    | [] => some (folded, g, p)
    | c :: _ =>
      if isBreak c then passQuotedGap? count true (g.addBreak folded) p.passBreak
      else if !isBlank c then some (folded, g, p)
      else if !folded then passQuotedGap? count folded { g with blanks := c :: g.blanks } (p.passBlanks 1)
      else if c = '\t' && (p.col : Int) < p.indent then none
      else passQuotedGap? count folded g (p.passBlanks 1)

/-- Reads the words of a quoted scalar and its closing quote, at most `count` of them. -/
def readQuoted? (quote : Char) : Nat → List Char → Place → Option (List Char × Place)
  | 0, _, _ => none
  | count + 1, before, p =>
    if (p.col = 0 && isDocumentMark p.rest) || p.rest.isEmpty || (p.col : Int) < p.indent then none
    else
      match readQuotedWord? quote p.rest.length before p with
      | none => none
      | some (before, folded, p) =>
        if p.rest.head? = some quote then some (before, p.pass 1)
        else
          match passQuotedGap? p.rest.length folded .none p with
          | none => none
          | some (folded, g, p) => readQuoted? quote count (g.text folded ++ before) p

/-- Whether something may stand behind a quoted scalar that began on a line. -/
def mayFollowQuoted (line : Nat) (p : Place) : Bool :=
  match p.rest with
  | ':' :: _ => !p.flows.isEmpty || p.line = line
  | ',' :: _ | '}' :: _ | ']' :: _ => !p.flows.isEmpty
  | cs => endsLine cs

/-- Reads a quoted scalar.  A value may follow it right behind its colon. -/
def scanQuoted? (quote : Char) (p : Place) : Option Place := do
  let line := p.line
  let (text, p) ← readQuoted? quote (p.rest.length + 1) [] (p.pass 1)
  let p ← p.toGapEnd? true
  if !mayFollowQuoted line p then none
  else
    let p ← p.toToken?
    return { p with adjacent := p.index }.push (.scalar false (String.ofList text.reverse))

/-! ### Blocks of text -/

/-- What becomes of the ends of lines at the end of a block. -/
inductive Ending where
  | one
  | all
  | no
  deriving DecidableEq

def ending? : Char → Option Ending
  | '+' => some .all
  | '-' => some .no
  | _ => none

/-- Reads what stands behind the mark of a block: its ending and its indentation, in either order. -/
def readBlockHead? (p : Place) : Option (Ending × Nat × Place) :=
  let digit? (cs : List Char) : Option Nat :=
    match cs with
    | c :: _ => if c.isDigit then some (c.toNat - 48) else none
    | [] => none
  match p.rest.head?.bind ending?, digit? p.rest with
  | some e, _ =>
    match digit? (p.rest.drop 1) with
    | some 0 => none
    | some n => some (e, n, p.pass 2)
    | none => some (e, 0, p.pass 1)
  | none, some 0 => none
  | none, some n =>
    match (p.rest.drop 1).head?.bind ending? with
    | some e => some (e, n, p.pass 2)
    | none => some (.one, n, p.pass 1)
  | none, none => some (.one, 0, p)

/-- Passes blanks up to a column, and lines that have nothing else; how many lines. -/
def passIndent (indent : Nat) : Nat → Nat → Place → Nat × Place
  | 0, breaks, p => (breaks, p)
  | count + 1, breaks, p =>
    let p := p.passBlanks ((p.rest.takeWhile (· = ' ')).length.min (indent - p.col))
    if p.rest.head?.any isBreak then passIndent indent count (breaks + 1) p.passBreak else (breaks, p)

/-- Passes the lines in front of a block that have only blanks; how many, and the column of the furthest
blank. -/
def passFirstIndent : Nat → Nat → Nat → Place → Nat × Nat × Place
  | 0, col, breaks, p => (col, breaks, p)
  | count + 1, col, breaks, p =>
    let p := p.passBlanks (p.rest.takeWhile (· = ' ')).length
    let col := max col p.col
    if p.rest.head?.any isBreak then passFirstIndent count col (breaks + 1) p.passBreak else (col, breaks, p)

/-- A block of text, as far as it is read. -/
structure Block where
  /-- The characters read, the last first. -/
  before : List Char
  /-- Whether the last line has ended. -/
  broken : Bool
  /-- How many empty lines follow it. -/
  breaks : Nat
  /-- Whether the last line began with a blank. -/
  blank : Bool

/-- The characters in front of a line that does or does not begin with a blank. -/
def Block.beforeLine (b : Block) (literal blank : Bool) : List Char :=
  let breaks := List.replicate b.breaks '\n' ++ b.before
  if !literal && b.broken && !b.blank && !blank then if b.breaks = 0 then ' ' :: breaks else breaks
  else List.replicate b.breaks '\n' ++ ((if b.broken then ['\n'] else []) ++ b.before)

/-- Reads the lines of a block at a column, at most `count` of them. -/
def readBlock (literal : Bool) (indent : Nat) : Nat → Block → Place → Block × Place
  | 0, b, p => (b, p)
  | count + 1, b, p =>
    if p.col ≠ indent || p.rest.isEmpty || (indent = 0 && isDocumentMark p.rest) then (b, p)
    else
      let line := p.rest.takeWhile fun c => !isBreak c
      let blank := line.head?.any isBlank
      let b : Block := ⟨line.reverse ++ b.beforeLine literal blank, false, 0, blank⟩
      let p := p.pass line.length
      if p.rest.isEmpty then (b, p)
      else
        let p := p.passBreak
        let (breaks, p) := passIndent indent (p.rest.length + 1) 0 p
        readBlock literal indent count { b with broken := true, breaks } p

/-- The text of a block that is all read. -/
def Block.text (b : Block) (ending : Ending) (indent : Nat) (p : Place) : List Char :=
  let last := if b.broken then ['\n'] else []
  let missing := if p.rest.isEmpty && max indent 1 ≤ p.col then ['\n'] else []
  let more := List.replicate b.breaks '\n'
  (match ending with
    | .no => b.before
    | .one => missing ++ last ++ b.before
    | .all => more ++ missing ++ last ++ b.before).reverse

/-- The text of a block without lines. -/
def emptyBlock (ending : Ending) (broken : Bool) (breaks : Nat) : List Char :=
  if ending = .no || !broken then []
  else if ending = .all then List.replicate (max breaks 1) '\n'
  else ['\n']

/-- Reads a block of text. -/
def scanBlock? (literal : Bool) (p : Place) : Option Place := do
  let line := p.line
  let p := (p.pass 1).leaveHalf
  let (ending, width, p) ← readBlockHead? p
  let p ← p.toGapEnd? true
  if !endsLine p.rest then none
  else
    let p := if p.rest.isEmpty then p else p.passBreak
    if p.rest.head? = some '\t' then none
    else
      let count := p.rest.length + 1
      let least : Nat := if 0 ≤ p.indent then (p.indent + 1).toNat else 0
      let (indent, breaks, p) :=
        if width = 0 then
          let (col, breaks, p) := passFirstIndent count 0 0 p
          (max col least, breaks, p)
        else
          let indent := if 0 ≤ p.indent then p.indent.toNat + width else width
          let (breaks, p) := passIndent indent count 0 p
          (indent, breaks, p)
      if p.rest.isEmpty then
        return p.push (.scalar false (String.ofList (emptyBlock ending (line < p.line) breaks)))
      else if p.col < indent && p.indent < p.col then none
      else
        let (b, p) := readBlock literal indent count ⟨[], false, breaks, false⟩ p
        return p.push (.scalar false (String.ofList (b.text ending indent p)))

end Place

end EventRelay.Yaml
