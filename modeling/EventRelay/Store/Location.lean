import EventRelay.Path
import EventRelay.Text.Hex
import EventRelay.Text.Integer
import EventRelay.Text.Utf8
/-!
# Where a store is kept

A text says where a store is: the path of a file, or an address, which begins with `file:` and can say
more, such as whether a missing file is made.  The empty path and `:memory:` stand for a store that is
kept in no file.

In an address, a byte can be written as a percent sign and two digits; a zero byte ends the part it stands
in.
-/

namespace EventRelay

/-! ### Addresses -/

structure Address where
  path : String
  parameters : List (String × String)
  deriving DecidableEq

namespace Address

/-- The bytes of a part of an address. -/
def unescape : Bytes → Bytes
  | [] => []
  | [b] => [b]
  | [b, c] => [b, c]
  | b :: c :: d :: rest =>
    if b = 0x25 then
      match Hex.digit? c, Hex.digit? d with
      | some high, some low =>
        if high = 0 ∧ low = 0 then [] else (high * 16 + low) :: unescape rest
      | _, _ => b :: unescape (c :: d :: rest)
    else b :: unescape (c :: d :: rest)

/-- The text of a part of an address. -/
def part (cs : List Char) : String := Utf8.decodeLossy (unescape (Utf8.encode (String.ofList cs)))

/-- What follows the host, if there is one; only this machine can be it. -/
def afterHost? : List Char → Option (List Char)
  | '/' :: '/' :: rest =>
    let host := String.ofList (rest.takeWhile (· ≠ '/'))
    if host = "" ∨ host = "localhost" then some (rest.dropWhile (· ≠ '/')) else none
  | cs => some cs

/-- A parameter, unless it has no name. -/
def parameter? (cs : List Char) : Option (String × String) :=
  let name := part (cs.takeWhile (· ≠ '='))
  if name.isEmpty then none else some (name, part ((cs.dropWhile (· ≠ '=')).drop 1))

/-- Reads what follows `file:`; what follows a number sign is not looked at. -/
def ofChars? (cs : List Char) : Option Address :=
  (afterHost? cs).map fun cs =>
    let cs := cs.takeWhile (· ≠ '#')
    { path := part (cs.takeWhile (· ≠ '?'))
      parameters := (Text.pieces '&' ((cs.dropWhile (· ≠ '?')).drop 1)).filterMap parameter? }

/-- Whether a value switches something on. -/
def saysYes (value : String) : Bool :=
  let digits := value.toList.takeWhile Char.isDigit
  if digits.isEmpty then String.ofList (value.toList.map Char.toLower) ∈ ["on", "yes", "true"]
  else match Integer.nat? 10 digits with
    | some n => n % 256 ≠ 0 && n < 2147483648
    | none => false

/-- What may be done with a file. -/
inductive Access where
  | read
  | write
  /-- It may be written, and is made if it is missing. -/
  | make
  /-- There is no file. -/
  | memory
  deriving DecidableEq

/-- Accesses by how much they allow. -/
def Access.rank : Access → Nat
  | .read => 0
  | .write => 1
  | .make => 2
  | .memory => 3

def Access.ofText? (s : String) : Option Access :=
  [("ro", .read), ("rw", .write), ("rwc", .make), ("memory", .memory)].lookup s

/-- The ways of the system to lock a file. -/
def systems : List String := ["unix", "unix-none", "unix-dotfile", "unix-excl"]

/-- The access after one more parameter; `none` if it asks for what there is not, or for more than one
before it. -/
def restrict? (before : Access) (p : String × String) : Option Access :=
  if p.1 = "mode" then
    (Access.ofText? p.2).bind fun a =>
      if a = .memory ∨ a.rank ≤ before.rank then some a else none
  else if p.1 = "cache" then if p.2 ∈ ["shared", "private"] then some before else none
  else if p.1 = "vfs" then if p.2 ∈ systems then some before else none
  else some before

def access? (a : Address) : Option Access := a.parameters.foldlM restrict? .make

/-- Whether the file must stay as it is. -/
def isFixed (a : Address) : Bool := (a.parameters.lookup "immutable").any saysYes

end Address

/-! ### Locations -/

structure Location where
  /-- The path of the file in normal form; none for a store that is kept in no file. -/
  file? : Option String
  /-- Whether a missing file is made. -/
  makes : Bool
  /-- Whether the file must stay as it is. -/
  isFixed : Bool
  /-- Whether it was given as an address.  Readers take it for a path, and find nothing there. -/
  isAddress : Bool
  deriving DecidableEq

namespace Location

/-- Whether a path stands for no file. -/
def isNowhere (path : String) : Bool := path = "" || path = ":memory:"

/-- The location of a file, unless some name on its path is too long. -/
def ofFile? (path : String) (makes isFixed isAddress : Bool) : Option Location :=
  if (Path.steps path).all fun n => Path.hasRoom n 0 then
    some ⟨some (Path.normal path), makes, isFixed, isAddress⟩
  else none

/-- The location of an address; every store is written to when it is opened. -/
def ofAddress? (a : Address) : Option Location :=
  match a.access? with
  | none | some .read => none
  | some access =>
    if access = .memory ∨ isNowhere a.path then some ⟨none, true, false, true⟩
    else ofFile? a.path (access = .make) a.isFixed true

/-- Reads where a store is. -/
def ofText? (s : String) : Option Location :=
  if '\x00' ∈ s.toList then none
  else if isNowhere s then some ⟨none, true, false, false⟩
  else match s.toList with
    | 'f' :: 'i' :: 'l' :: 'e' :: ':' :: rest => (Address.ofChars? rest).bind ofAddress?
    | _ => ofFile? s true false false

/-- What the name of a journal adds to that of its store. -/
def journalSuffix : String := "-journal"

/-- Whether a journal can be made beside the file. -/
def hasRoom (l : Location) : Bool :=
  l.file?.all fun f => Path.hasRoom (Path.lastName f) journalSuffix.utf8ByteSize

example : ofText? "file:y%20z.db?mode=rw&x#?" = some ⟨some "y z.db", false, false, true⟩ := by
  decide +kernel

example : ofText? "file:q.db?mode=ro" = none ∧ ofText? "file://host/q" = none := by decide +kernel

example : ofText? "file:a%00b?cache=shared&mode=memory" = some ⟨none, true, false, true⟩ := by
  decide +kernel

end Location

end EventRelay
