import EventRelay.Settings.Value
/-!
# Paths of settings

A setting is found by a path: from the top, each step goes to a name of a table or to a place in a list,
counted from the end if it is negative.  A name at the top may write a whole path, `relay.logging` or
`relay[0]`; one that is not written like a path is a name as it stands.

Putting a value at a path makes the tables and lists on the way.  A list grows up to the place, with
nothing at the places between.  Under a name, a table is merged into what is there; at a place in a list
it takes its place.
-/

namespace EventRelay.Setting

inductive Step where
  | name (s : String)
  | place (i : Int)
  deriving DecidableEq

/-! ### Reading -/

/-- The characters of a name in a path. -/
def isNameChar (c : Char) : Bool := c.isAlphanum || c = ' ' || c = '_' || c = '-'

def isGap (c : Char) : Bool := c = ' ' || c = '\t' || c = '\n' || c = '\r'

/-- Reads a place in a list behind its opening bracket. -/
def readPlace? (cs : List Char) : Option (Int × List Char) :=
  let (negative, cs) := match cs.dropWhile isGap with
    | '-' :: rest => (true, rest)
    | rest => (false, rest)
  let digits := cs.takeWhile Char.isDigit
  match digits, (cs.dropWhile Char.isDigit).dropWhile isGap with
  | [], _ => none
  | digits, ']' :: rest =>
    (Decimal.natOfDigits? digits).bind fun n =>
      let i : Int := if negative then -n else n
      if Decimal.isSignedWord i then some (i, rest) else none
  | _, _ => none

/-- Reads the steps behind a name, at most `count` of them. -/
def readSteps? : Nat → List Char → Option (List Step)
  | _, [] => some []
  | count + 1, '.' :: rest =>
    let name := rest.takeWhile isNameChar
    if name.isEmpty then none
    else (readSteps? count (rest.dropWhile isNameChar)).map (.name (String.ofList name) :: ·)
  | count + 1, '[' :: rest =>
    match readPlace? rest with
    | none => none
    | some (i, rest) => (readSteps? count rest).map (.place i :: ·)
  | _, _ => none

/-- The path that a name at the top writes. -/
def pathOf (s : String) : List Step :=
  let name := s.toList.takeWhile isNameChar
  let rest := s.toList.dropWhile isNameChar
  if name.isEmpty then [.name s]
  else
    match readSteps? rest.length rest with
    | some steps => .name (String.ofList name) :: steps
    | none => [.name s]

example : pathOf "a.b_c[ -1 ]" = [.name "a", .name "b_c", .place (-1)] ∧ pathOf "a." = [.name "a."] := by
  decide +kernel

/-! ### Putting -/

/-- The items of a list. -/
def items : Setting → List Setting
  | .list vs => vs
  | _ => []

/-- The longest list that a path makes. -/
def maxPlaces : Nat := 16777216

/-- A place counted from the front. -/
def index? (i : Int) (size : Nat) : Option Nat :=
  let k := if i < 0 then size + i else i
  if 0 ≤ k ∧ k < maxPlaces then some k.toNat else none

/-- Puts a value at a place; what is no list becomes one. -/
def putItem (v : Setting) (k : Nat) (w : Setting) : Setting :=
  .list ((v.items ++ List.replicate (k + 1 - v.items.length) Setting.nothing).set k w)

/-- Puts a value at the end of a path, unless a list on the way has no such place. -/
def putAt? (v : Setting) : List Step → Setting → Option Setting
  | [], target => some (v.replacing (some target))
  | [.name s], target =>
    let s := small s
    some (target.put s (v.replacing (target.get? s)))
  | [.place i], target => (index? i target.items.length).map fun k => target.putItem k v
  | .name s :: path, target =>
    let s := small s
    (putAt? v path ((target.get? s).getD .nothing)).map fun inner => target.put s inner
  | .place i :: path, target =>
    match index? i target.items.length with
    | none => none
    | some k => (putAt? v path ((target.items[k]?).getD .nothing)).map fun inner => target.putItem k inner

/-- Puts a value under a name at the top. -/
def putTop? (target : Setting) (name : String) (v : Setting) : Option Setting :=
  putAt? v (pathOf name) target

end EventRelay.Setting
