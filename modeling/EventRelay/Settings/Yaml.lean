import EventRelay.Settings.Value
import EventRelay.Settings.Yaml.Stream
/-!
# Reading YAML

One document of lists, tables and scalars, in blocks or in flow collections.  Plain scalars are read as
nothing, a flag, an integer or a decimal if they are written like one; all others are text, and tags can
say what a plain one is.  An alias stands for the node of its anchor; within that node itself it is
nothing.

The names of a table are scalars, and differ.  A text without a document is an empty table.
-/

namespace EventRelay.Yaml

/-! ### Scalars -/

inductive Scalar where
  | nothing
  | flag (b : Bool)
  | integer (n : Int)
  /-- A decimal, as it is written. -/
  | decimal (text : String)
  | text (s : String)
  deriving DecidableEq

namespace Scalar

/-- The texts of what is no finite decimal. -/
def unboundedTexts : List String :=
  [".inf", ".Inf", ".INF", "+.inf", "+.Inf", "+.INF", "-.inf", "-.Inf", "-.INF", ".nan", ".NaN", ".NAN"]

/-- Whether a text is written like a decimal. -/
def isDecimal (s : String) : Bool :=
  s ∈ unboundedTexts || (s.toList.any Char.isDigit && (Double.read? s).isSome)

/-- The integer that a text writes in a base that it names, or behind a plus sign. -/
def marked? (s : String) : Option Int :=
  match s.toList with
  | '0' :: 'x' :: digits => Integer.read? 16 digits
  | '0' :: 'o' :: digits => Integer.read? 8 digits
  | '+' :: digits => Integer.read? 10 digits
  | _ => none

/-- The scalar that a plain text writes. -/
def ofPlain (s : String) : Scalar :=
  match (marked? s).or (Integer.read? 10 s.toList) with
  | some n => .integer n
  | none =>
    if s = "" ∨ s = "~" ∨ s = "null" then .nothing
    else if s = "true" then .flag true
    else if s = "false" then .flag false
    else if isDecimal s then .decimal s
    else .text s

/-- What the tags of the common types begin with. -/
def commonTag : String := "tag:yaml.org,2002:"

/-- The scalar that a plain text writes under a tag; nothing if it does not fit. -/
def ofTagged (handle suffix s : String) : Scalar :=
  if handle ≠ commonTag then .text s
  else match suffix with
    | "bool" => if s = "true" then .flag true else if s = "false" then .flag false else .nothing
    | "int" => match Integer.read? 10 s.toList with
      | some n => .integer n
      | none => .nothing
    | "float" => if isDecimal s then .decimal s else .nothing
    | "null" => .nothing
    | _ => .text s

/-- The value of a scalar; a decimal must be one of digits. -/
def setting? : Scalar → Option Setting
  | .nothing => some .nothing
  | .flag b => some (.flag b)
  | .integer n => some (.integer n)
  | .decimal s => (Double.read? s).map .decimal
  | .text s => some (.text s)

/-- The name that a scalar is in a table. -/
def name? : Scalar → Option String
  | .nothing => none
  | .flag b => some (if b then "true" else "false")
  | .integer n => some (toString n)
  | .decimal s | .text s => some s

end Scalar

/-- A scalar, or the value of a collection. -/
inductive Node where
  | scalar (x : Scalar)
  | collection (v : Setting)

def Node.setting? : Node → Option Setting
  | .scalar x => x.setting?
  | .collection v => some v

def Node.nothing : Node := .scalar .nothing

/-! ### Nodes -/

/-- A document, as far as it is read. -/
structure Document where
  tokens : List Token
  /-- The meanings of handles. -/
  handles : List (String × String)
  /-- The anchors by name, the last first, with their numbers. -/
  anchors : List (String × Nat)
  /-- The nodes that have an anchor and are read. -/
  nodes : List (Nat × Node)

abbrev Reader (α : Type) := Document → Option (α × Document)

namespace Document

def next (d : Document) : Document := { d with tokens := d.tokens.drop 1 }

def first? (d : Document) : Option Token := d.tokens.head?

/-- Whether one of some tokens is the first. -/
def isAt (d : Document) (ts : List Token) : Bool := d.first?.any (· ∈ ts)

/-- Names an anchor. -/
def nameAnchor (d : Document) (name : String) : Nat × Document :=
  let number := d.anchors.length + 1
  (number, { d with anchors := (name, number) :: d.anchors })

/-- The node that an alias stands for; none if there is no such anchor. -/
def alias? (d : Document) (name : String) : Option Node :=
  (d.anchors.find? (·.1 = name)).map fun a =>
    ((d.nodes.find? (·.1 = a.2)).map Prod.snd).getD .nothing

/-- The tag that a handle and a suffix write. -/
def tag? (d : Document) (handle suffix : String) : Option (String × String) :=
  match d.handles.find? (·.1 = handle) with
  | some h => some (h.2, suffix)
  | none =>
    if handle = "!!" then some (Scalar.commonTag, suffix)
    else if 2 ≤ handle.length ∧ handle.toList.getLast? = some '!' then none
    else some (handle, suffix)

end Document

/-- An anchor and a tag, in either order, in front of a node. -/
structure Marks where
  anchor : Option Nat
  tag : Option (String × String)

/-- Reads a tag, if there is one. -/
def readTag? : Reader (Option (String × String)) := fun d =>
  match d.first? with
  | some (.tag handle suffix) => (d.tag? handle suffix).map fun t => (some t, d.next)
  | _ => some (none, d)

/-- Reads an anchor, if there is one. -/
def readAnchor (d : Document) : Option Nat × Document :=
  match d.first? with
  | some (.anchor name) =>
    let (number, d) := d.nameAnchor name
    (some number, d.next)
  | _ => (none, d)

/-- Reads the marks in front of a node. -/
def readMarks? : Reader Marks := fun d => do
  let (anchor, d) := readAnchor d
  let (tag, d) ← readTag? d
  match anchor with
  | some n => some (⟨some n, tag⟩, d)
  | none =>
    let (anchor, d) := if tag.isSome then readAnchor d else (none, d)
    some (⟨anchor, tag⟩, d)

/-- A reader of nodes: whether they may be blocks, and whether a list may stand without indentation. -/
abbrev NodeReader := Bool → Bool → Reader Node

/-- Reads a node unless one of some tokens is the first; then there is nothing. -/
def readUnless? (node : NodeReader) (block listToo : Bool) (ts : List Token) : Reader Node := fun d =>
  if d.isAt ts then some (.nothing, d) else node block listToo d

/-- Reads the entries of a block, at most `count`, up to a token that is none. -/
def readItems? (node : NodeReader) (ends : List Token) : Nat → List Setting → Reader (List Setting)
  | 0, _ => fun _ => none
  | count + 1, before => fun d =>
    if !d.isAt [.item] then some (before.reverse, d)
    else do
      let (n, d) ← readUnless? node true false ends d.next
      readItems? node ends count ((← n.setting?) :: before) d

/-- Reads the value behind a key of a block. -/
def readBlockValue? (node : NodeReader) : Reader Node := fun d =>
  if d.isAt [.value] then readUnless? node true true [.key, .value, .blockEnd] d.next
  else some (.nothing, d)

/-- Puts a value under a key that is new. -/
def entry? (key value : Node) (before : List (Scalar × Setting)) : Option (List (Scalar × Setting)) :=
  match key with
  | .scalar k =>
    if before.any (·.1 = k) then none else value.setting?.map fun v => (k, v) :: before
  | .collection _ => none

/-- Reads the keys and values of a block, at most `count`, and its end. -/
def readBlockEntries? (node : NodeReader) : Nat → List (Scalar × Setting) →
    Reader (List (Scalar × Setting))
  | 0, _ => fun _ => none
  | count + 1, before => fun d =>
    if d.isAt [.blockEnd] then some (before, d.next)
    else if d.isAt [.key, .value] then do
      let (k, d) ← if d.isAt [.key] then readUnless? node true true [.key, .value, .blockEnd] d.next
        else some (.nothing, d)
      let (v, d) ← readBlockValue? node d
      readBlockEntries? node count (← entry? k v before) d
    else none

/-- Reads a key and a value of a flow collection. -/
def readFlowPair? (node : NodeReader) (ends : List Token) : Reader (Node × Node) := fun d => do
  let (k, d) ← if d.isAt [.key] then readUnless? node false false (.value :: ends) d.next
    else if d.isAt [.value] then some (.nothing, d)
    else node false false d
  let (v, d) ← if d.isAt [.value] then readUnless? node false false ends d.next else some (.nothing, d)
  some ((k, v), d)

/-- Reads the pairs of a flow table, at most `count`, and its end. -/
def readFlowEntries? (node : NodeReader) : Nat → List (Scalar × Setting) →
    Reader (List (Scalar × Setting))
  | 0, _ => fun _ => none
  | count + 1, before => fun d =>
    if d.isAt [.flowTableEnd] then some (before, d.next)
    else do
      let ((k, v), d) ← readFlowPair? node [.comma, .flowTableEnd] d
      let before ← entry? k v before
      if d.isAt [.comma] then readFlowEntries? node count before d.next
      else if d.isAt [.flowTableEnd] then some (before, d.next)
      else none

/-- The field that an entry is. -/
def field? (entry : Scalar × Setting) : Option (String × Setting) :=
  entry.1.name?.map fun name => (name, entry.2)

/-- The table of entries, the last first. -/
def tableOf? (entries : List (Scalar × Setting)) : Option Setting :=
  (entries.reverse.mapM field?).map fun fields => .table (Setting.lastOf fields)

/-- Reads the items of a flow list, at most `count`, and its end.  A pair among them is a table. -/
def readFlowItems? (node : NodeReader) : Nat → List Setting → Reader (List Setting)
  | 0, _ => fun _ => none
  | count + 1, before => fun d =>
    if d.isAt [.flowListEnd] then some (before.reverse, d.next)
    else do
      let (v, d) ← if d.isAt [.key, .value] then do
          let ((k, v), d) ← readFlowPair? node [.comma, .flowListEnd] d
          some (← tableOf? (← entry? k v []), d)
        else do
          let (n, d) ← node false false d
          some (← n.setting?, d)
      if d.isAt [.comma] then readFlowItems? node count (v :: before) d.next
      else if d.isAt [.flowListEnd] then some ((v :: before).reverse, d.next)
      else none

/-- Reads a node behind its marks. -/
def readBare? (node : NodeReader) (block listToo : Bool) (marks : Marks) : Reader Node := fun d =>
  let count := d.tokens.length + 1
  let list (r : Option (List Setting × Document)) : Option (Node × Document) :=
    r.map fun r => (.collection (.list r.1), r.2)
  let table (r : Option (List (Scalar × Setting) × Document)) : Option (Node × Document) :=
    r.bind fun r => (tableOf? r.1).map fun v => (.collection v, r.2)
  let scalar (plain : Bool) (s : String) : Node :=
    .scalar (if !plain then .text s
      else match marks.tag with
        | some (handle, suffix) => .ofTagged handle suffix s
        | none => .ofPlain s)
  match d.first?, block with
  | some (.scalar plain s), _ => some (scalar plain s, d.next)
  | some .flowList, _ => list (readFlowItems? node count [] d.next)
  | some .flowTable, _ => table (readFlowEntries? node count [] d.next)
  | some .blockList, true =>
    match readItems? node [.item, .blockEnd] count [] d.next with
    | some (vs, d) => if d.isAt [.blockEnd] then list (some (vs, d.next)) else none
    | none => none
  | some .blockTable, true => table (readBlockEntries? node count [] d.next)
  | first, _ =>
    if listToo && first = some .item then
      list (readItems? node [.item, .key, .value, .blockEnd] count [] d)
    else if marks.tag.isSome || marks.anchor.isSome then some (scalar true "", d)
    else none

/-- Reads a node in which others nest at most this deep. -/
def readNode? : Nat → NodeReader
  | 0, _, _ => fun _ => none
  | depth + 1, block, listToo => fun d =>
    match d.first? with
    | some (.alias name) => (d.alias? name).map fun n => (n, d.next)
    | _ => do
      let (marks, d) ← readMarks? d
      let (n, d) ← readBare? (readNode? depth) block listToo marks d
      match marks.anchor with
      | some number => some (n, { d with nodes := (number, n) :: d.nodes })
      | none => some (n, d)

/-! ### Documents -/

/-- Passes directives; a version is given once, and so is the meaning of a handle. -/
def readDirectives? (versions : Nat) (handles : List (String × String)) :
    List Token → Option (List (String × String) × List Token)
  | .version :: rest => if versions = 0 then readDirectives? 1 handles rest else none
  | .handle name meaning :: rest =>
    if handles.any (·.1 = name) then none else readDirectives? versions ((name, meaning) :: handles) rest
  | rest => some (handles, rest)

def skipEnds (ts : List Token) : List Token := ts.dropWhile (· = .documentEnd)

/-- Reads the only document. -/
def readDocument? (ts : List Token) : Option Setting := do
  let (handles, rest) ← readDirectives? 0 [] ts
  let rest ← match rest with
    | .documentStart :: rest => some rest
    | _ => if rest.length = ts.length then some rest else none
  let (n, d) ← readNode? (rest.length + 1) true false ⟨rest, handles, [], []⟩
  if (skipEnds d.tokens).isEmpty then n.setting? else none

/-- The value that a text writes. -/
def parse? (s : String) : Option Setting := do
  match skipEnds (← tokens? s) with
  | [] => some (.table [])
  | ts => readDocument? ts

end EventRelay.Yaml
