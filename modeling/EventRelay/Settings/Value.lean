import EventRelay.Text.Double
/-!
# Values of settings

Settings come from several places and are put together in one tree: a later value replaces an earlier
one, and a table is merged into a table name by name.  Names do not differ by the size of their
letters.

Where a setting is read, values of other types stand for it as far as they make sense: a word can be
given as text, a flag as a number, a text as anything that has one.
-/

namespace EventRelay

inductive Setting where
  | nothing
  | flag (b : Bool)
  | integer (n : Int)
  | decimal (x : Double)
  | text (s : String)
  | list (items : List Setting)
  | table (fields : List (String × Setting))
  deriving Inhabited

namespace Setting

/-- The small letter of a letter that has one.  Of the characters beyond ASCII only the Kelvin sign has
a small letter within it, and names are ASCII. -/
def smallChar (c : Char) : Char := if c = '\u212a' then 'k' else c.toLower

/-- A text in small letters. -/
def small (s : String) : String := String.ofList (s.toList.map smallChar)

/-! ### Reading -/

/-- The words that stand for yes. -/
def saysYes (s : String) : Bool := small s ∈ ["true", "on", "yes"]

/-- The words that stand for no. -/
def saysNo (s : String) : Bool := small s ∈ ["false", "off", "no"]

/-- An unsigned word.  A decimal is rounded, a half away from zero, and what is too large or too small
becomes the largest or the least word. -/
def word? : Setting → Option UInt64
  | .flag b => some (if b then 1 else 0)
  | .integer n => if 0 ≤ n then Decimal.word? n.toNat else none
  | .decimal x => some x.toWord
  | .text s => if saysYes s then some 1 else if saysNo s then some 0 else Decimal.readWord? s
  | _ => none

def flag? : Setting → Option Bool
  | .flag b => some b
  | .integer n => some (n ≠ 0)
  | .decimal x => some !x.isZero
  | .text s =>
    if saysYes s || s = "1" then some true else if saysNo s || s = "0" then some false else none
  | _ => none

def text? : Setting → Option String
  | .text s => some s
  | .flag b => some (if b then "true" else "false")
  | .integer n => some (toString n)
  | .decimal x => some x.text
  | _ => none

/-! ### Tables -/

/-- The value under a name; there is none unless this is a table. -/
def get? (v : Setting) (name : String) : Option Setting :=
  match v with
  | .table fields => (fields.find? (·.1 = name)).map Prod.snd
  | _ => none

/-- Fields of which each name keeps the last value it was given. -/
def lastOf (fields : List (String × Setting)) : List (String × Setting) :=
  fields.foldl (fun kept f => kept.filter (·.1 ≠ f.1) ++ [f]) []

/-- Puts a value under a name; what is no table becomes one. -/
def put (v : Setting) (name : String) (w : Setting) : Setting :=
  match v with
  | .table fields => .table ((name, w) :: fields.filter (·.1 ≠ name))
  | _ => .table [(name, w)]

mutual

/-- A value in place of an earlier one. -/
def replacing : Setting → Option Setting → Setting
  | .table fields, old => putAll fields (old.getD (.table []))
  | v, _ => v

/-- Puts values under their names, each in place of the earlier one. -/
def putAll : List (String × Setting) → Setting → Setting
  | [], target => target
  | (name, v) :: rest, target => putAll rest (target.put (small name) (v.replacing (target.get? (small name))))

end

end Setting

end EventRelay
