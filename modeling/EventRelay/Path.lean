import EventRelay.Text.Lines
/-!
# Paths

Paths of files as names between slashes.  A path in normal form has no empty names, none for the
directory it stands in, and no parent directory behind a name; it is found without asking which
directories there are.
-/

namespace EventRelay.Path

def isRooted (path : String) : Bool := path.toList.head? = some '/'

/-- What stands between the slashes. -/
def names (path : String) : List String := (Text.pieces '/' path.toList).map String.ofList

/-- The names that lead on. -/
def steps (path : String) : List String := (names path).filter fun n => n ≠ "" && n ≠ "."

/-- Takes one more step; the steps before come the last first. -/
def climb (rooted : Bool) (before : List String) (name : String) : List String :=
  if name ≠ ".." then name :: before
  else match before with
    | [] => if rooted then [] else [".."]
    | last :: rest => if last = ".." then name :: before else rest

/-- The path of some names. -/
def ofNames (rooted : Bool) (names : List String) : String :=
  (if rooted then "/" else "") ++ "/".intercalate names

/-- The normal form of a path. -/
def normal (path : String) : String :=
  ofNames (isRooted path) ((steps path).foldl (climb (isRooted path)) []).reverse

/-- Whether two paths name their file alike. -/
def same (p q : String) : Bool := isRooted p = isRooted q && steps p = steps q

/-- A path up to the end of its last name, to which an extension can be added; `none` if it ends with no
name. -/
def stem? (path : String) : Option String :=
  match (names path).reverse.dropWhile fun n => n = "" || n = "." with
  | [] => none
  | last :: rest => if last = ".." then none else some ("/".intercalate (last :: rest).reverse)

/-- The last name of a path. -/
def lastName (path : String) : String := ((steps path).getLast?).getD ""

/-- The number of bytes that a name may have. -/
def maxNameSize : Nat := 255

/-- Whether a name has room for `more` bytes. -/
def hasRoom (name : String) (more : Nat) : Bool := name.utf8ByteSize + more ≤ maxNameSize

example : normal "a/.//../b/" = "b" ∧ normal "../a" = "../a" ∧ normal "/../a" = "/a" := by decide +kernel

example : stem? "./k./" = some "./k." ∧ stem? "." = none ∧ stem? "a/.." = none := by decide +kernel

end EventRelay.Path
