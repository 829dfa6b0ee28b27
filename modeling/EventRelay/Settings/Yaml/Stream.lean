import EventRelay.Settings.Yaml.Scalar
/-!
# The tokens of a YAML text

Reading a text token by token.  A block begins where an entry or a key stands further to the right than
the block around it, and ends where something stands further to the left.  That a token was a key is
known only at the colon; the tokens for the key, and for the block that it begins, then go in front of
it.
-/

namespace EventRelay.Yaml

namespace Place

/-! ### Words -/

def isWordChar (c : Char) : Bool := c.isAlphanum || c = '_' || c = '-'

/-- The characters of names of anchors. -/
def isAnchorChar (c : Char) : Bool := !isBlank c && !isBreak c && !isFlow c && c ≠ '\ufeff'

def isUriChar (c : Char) : Bool :=
  c.isAlphanum || c ∈ ['-', '#', ';', '/', '?', ':', '@', '&', '=', '+', '$', ',', '_', '.', '!', '~',
    '*', '\'', '(', ')', '[', ']', '%']

def isTagChar (c : Char) : Bool := isUriChar c && !isFlow c && c ≠ '!'

/-- Takes characters; they are at least one. -/
def takeSome? (isChar : Char → Bool) (p : Place) : Option (List Char × Place) :=
  let word := p.rest.takeWhile isChar
  if word.isEmpty then none else some (word, p.pass word.length)

/-- Takes the handle of a tag: an exclamation mark, perhaps with a word and another one behind it. -/
def takeHandle? (p : Place) : Option (List Char × Place) :=
  match p.rest with
  | '!' :: rest =>
    let word := rest.takeWhile isWordChar
    let last := if (rest.drop word.length).head? = some '!' then ['!'] else []
    some ('!' :: (word ++ last), p.pass (1 + word.length + last.length))
  | _ => none

/-- Whether a handle has an exclamation mark on both sides. -/
def isClosed (handle : List Char) : Bool := 2 ≤ handle.length && handle.getLast? = some '!'

/-! ### Directives -/

/-- Reads the number of a version. -/
def toVersionEnd? (p : Place) : Option Place := do
  let p := p.passBlanks (p.rest.takeWhile isBlank).length
  let (major, p) ← p.takeSome? Char.isDigit
  if p.rest.head? ≠ some '.' then none
  else
    let (minor, p) ← (p.pass 1).takeSome? Char.isDigit
    if 9 < major.length ∨ 9 < minor.length then none else some p

/-- Reads a handle and what it stands for. -/
def takeMeaning? (p : Place) : Option (Token × Place) := do
  let p := p.passBlanks (p.rest.takeWhile isBlank).length
  let (handle, p) ← p.takeHandle?
  if !(isClosed handle || handle = ['!']) || !p.rest.head?.any isBlank then none
  else
    let p := p.passBlanks (p.rest.takeWhile isBlank).length
    let (meaning, p) ← p.takeSome? isUriChar
    if !endsWord p.rest || !(meaning.head?.any fun c => c = '!' || isTagChar c) then none
    else some (.handle (String.ofList handle) (String.ofList meaning), p)

/-- Reads a directive behind its mark, to the end of its line. -/
def scanDirective? (p : Place) : Option Place := do
  let (name, p) ← p.takeSome? isWordChar
  if !endsWord p.rest then none
  else
    let (t, p) ← match String.ofList name with
      | "YAML" => p.toVersionEnd?.map (Token.version, ·)
      | "TAG" => p.takeMeaning?
      | _ => some (Token.handle "" "", p.passLine)
    let p ← p.toGapEnd? true
    if !endsLine p.rest then none
    else some ((if p.rest.isEmpty then p else p.passBreak).push t)

/-! ### Tokens -/

/-- Ends the blocks at the end of a document. -/
def leaveAll? (p : Place) : Option Place := (p.leave (-1)).dropKey?.map (·.allowKeys false)

/-- Reads an anchor or an alias. -/
def scanAnchor? (p : Place) (t : String → Token) : Option Place :=
  (((p.saveMark.saveKey.allowKeys false).pass 1).takeSome? isAnchorChar).map fun r =>
    r.2.push (t (String.ofList r.1))

/-- Reads a tag. -/
def scanTag? (p : Place) : Option Place := do
  let p := p.saveMark.saveKey.allowKeys false
  let (t, p) ← match p.rest with
    | '!' :: '<' :: _ => do
      let (uri, p) ← (p.pass 2).takeSome? isUriChar
      if p.rest.head? = some '>' then some (Token.tag "" (String.ofList uri), p.pass 1) else none
    | _ => do
      let (handle, p) ← p.takeHandle?
      let suffix := p.rest.takeWhile isTagChar
      let p := p.pass suffix.length
      let whole := String.ofList (handle.drop 1 ++ suffix)
      if isClosed handle then
        if suffix.isEmpty then none
        else some (Token.tag (String.ofList handle) (String.ofList suffix), p)
      else if whole.isEmpty then some (Token.tag "" "!", p)
      else some (Token.tag "!" whole, p)
  if endsWord p.rest || (!p.flows.isEmpty && p.rest.head?.any isFlow) then some (p.push t) else none

/-- How deep flow collections may nest. -/
def maxFlows : Nat := 255

/-- Reads the mark that begins a flow collection. -/
def openFlow? (isList : Bool) (p : Place) : Option Place :=
  if maxFlows ≤ p.flows.length then none
  else
    let p := p.saveKey.enterHalf
    let p : Place := { p with keys := none :: p.keys, flows := isList :: p.flows, keysAllowed := true }
    ((p.pass 1).toGapEnd? true).map (·.push (if isList then .flowList else .flowTable))

/-- Reads the mark that ends a flow collection. -/
def closeFlow? (t : Token) (p : Place) : Option Place := do
  let p ← p.dropKey?
  let p : Place := if p.flows.isEmpty then p else { p with keys := p.keys.drop 1, flows := p.flows.drop 1 }
  let p ← ((p.allowKeys false).pass 1).toGapEnd? true
  return (if p.flows.isEmpty then p else { p with adjacent := p.index }).push t

/-- Reads a comma. -/
def scanComma? (p : Place) : Option Place := do
  let p ← p.dropKey?
  let p ← ((p.allowKeys true).pass 1).toGapEnd? true
  return p.push .comma

/-- Whether the last token only goes before a node. -/
def isBehindMark (p : Place) : Bool :=
  match p.tokens with
  | .anchor _ :: _ | .tag _ _ :: _ => true
  | _ => false

/-- Reads the dash of an entry. -/
def scanItem? (p : Place) : Option Place := do
  if !p.flows.isEmpty || !p.keysAllowed then none
  else if p.isBehindMark && p.mark = 0 && p.col = 0 && -1 < p.indent then none
  else
    let p := (p.pass 1).enter p.col p.tokens.length .blockList
    let (blanks, p) ← p.passGap? true
    if '\t' ∈ blanks && p.rest.head? = some '-' && endsWord (p.rest.drop 1) then none
    else
      let p := if p.rest.head?.any fun c => isBreak c || isFlow c then p.enterHalf else p
      let p ← p.dropKey?
      return (p.allowKeys true).push .item

/-- Passes blanks, ends of lines and comments behind the mark of a key, at most `count` of them. -/
def passKeyGaps : Nat → Place → Place
  | 0, p => p
  | count + 1, p =>
    match p.rest with
    | ' ' :: _ => passKeyGaps count (p.passBlanks 1)
    | '#' :: _ => passKeyGaps count p.passLine
    | '\n' :: _ | '\r' :: _ =>
      let p := p.passBreak
      passKeyGaps count { p with keysAllowed := p.keysAllowed || p.flows.isEmpty }
    | _ => p

/-- Reads the mark of a key. -/
def scanKey? (p : Place) : Option Place := do
  if p.flows.isEmpty && !p.keysAllowed then none
  else
    let p := p.enter p.col p.tokens.length .blockTable
    let p ← p.dropKey?
    let p := (p.allowKeys p.flows.isEmpty).pass 1
    if !p.rest.head?.any fun c => c = ' ' || isBreak c then none
    else
      let p := passKeyGaps p.rest.length p
      if p.rest.head? = some '\t' then none else some (p.push .key)

/-- Passes the colon of a value; a tab alone does not part it from a word. -/
def passColon? (p : Place) : Option Place :=
  let p := p.pass 1
  if p.rest.head? = some '\t' then
    match p.passGap? true with
    | some (blanks, p) =>
      if ' ' ∉ blanks && p.rest.head?.any isWordChar then none else some p
    | none => none
  else some p

/-- Reads the colon of a value, and makes a key of what stands in front if it may be one. -/
def scanValue? (p : Place) : Option Place := do
  let key := p.keys.head?.join
  let line := p.line
  let col := p.col
  let p ← p.passColon?
  match key with
  | some k =>
    if p.flows.head? = some true && k.line < line then none
    else
      let p := ((p.insert k.number .key).enter k.col k.number .blockTable).enterHalf
      return ({ p with keys := none :: p.keys.drop 1 }.allowKeys false).push .value
  | none =>
    if p.flows.isEmpty && !p.keysAllowed then none
    else
      let p := (p.enter col p.tokens.length .blockTable).enterHalf
      return (p.allowKeys p.flows.isEmpty).push .value

/-- Reads the mark of a document's start or end. -/
def scanDocumentMark? (p : Place) : Option Place := do
  let p ← p.leaveAll?
  if p.rest.head? = some '-' then return (p.pass 3).push .documentStart
  else
    let p ← (p.pass 3).toGapEnd? true
    if endsLine p.rest then return p.push .documentEnd else none

/-- Whether a colon here is that of a value. -/
def isColon (p : Place) (rest : List Char) : Bool :=
  endsWord rest || (!p.flows.isEmpty && (rest.head?.any isFlow || p.index = p.adjacent))

/-- Reads a plain scalar that may be a key. -/
def scanWord? (p : Place) : Option Place := (p.saveKey.allowKeys false).scanPlain?

/-- Reads the token that begins here. -/
def scanToken? (p : Place) : Option Place :=
  match p.rest with
  | '[' :: _ => p.openFlow? true
  | '{' :: _ => p.openFlow? false
  | ']' :: _ => p.closeFlow? .flowListEnd
  | '}' :: _ => p.closeFlow? .flowTableEnd
  | ',' :: _ => p.scanComma?
  | '*' :: _ => p.scanAnchor? .alias
  | '&' :: _ => p.scanAnchor? .anchor
  | '!' :: _ => p.scanTag?
  | '\'' :: _ => (p.saveKey.allowKeys false).scanQuoted? '\''
  | '"' :: _ => (p.saveKey.allowKeys false).scanQuoted? '"'
  | '-' :: rest => if endsWord rest then p.scanItem? else p.scanWord?
  | '?' :: rest => if endsWord rest then p.scanKey? else p.scanWord?
  | ':' :: rest => if p.isColon rest then p.scanValue? else p.scanWord?
  | c :: _ =>
    if (c = '|' || c = '>') && p.flows.isEmpty then (p.saveKey.allowKeys true).scanBlock? (c = '|')
    else if c = '%' || c = '@' || c = '\x60' then none
    else p.scanWord?
  | [] => none

/-- Ends a text. -/
def finish? (p : Place) : Option Place :=
  if p.keys.any fun k => k.any Candidate.required then none else some (p.leave (-1))

/-- Reads the tokens of a text, at most `count` of them. -/
def scan? : Nat → Place → Option Place
  | 0, _ => none
  | count + 1, p => do
    let p ← (← p.toToken?).dropStale?
    let p := p.leave p.col
    if p.rest.isEmpty then p.finish?
    else if p.col = 0 && p.rest.head? = some '%' then
      scan? count (← (← p.leaveAll?).pass 1 |>.scanDirective?)
    else if p.col = 0 && isDocumentMark p.rest then scan? count (← p.scanDocumentMark?)
    else if (p.col : Int) < p.indent then none
    else scan? count (← p.scanToken?)

end Place

/-- The tokens of a text.  It ends at a character of number zero. -/
def tokens? (s : String) : Option (List Token) :=
  let cs := s.toList.takeWhile (· ≠ '\x00')
  ((Place.start cs).scan? (2 * cs.length + 2)).map fun p => p.tokens.reverse

end EventRelay.Yaml
