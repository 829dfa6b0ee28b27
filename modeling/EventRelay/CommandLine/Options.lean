import EventRelay.Text.Decimal
/-!
# Options on a command line

A command takes options and operands in any order.  An option has a long name, given after two dashes,
and perhaps a letter, given after one.  A value follows as the next argument, or in the same argument:
after `=` behind a long name, directly or after `=` behind a letter.  A value that is an argument of its
own does not begin with a dash, unless it is the dash alone.  After the argument `--` everything is an
operand.

Arguments are read from left to right, and the first thing that ends the reading decides: a fault, or
an option that only asks for a notice.  No option is given twice.
-/

namespace EventRelay

/-- What a command is asked to print instead of doing its work. -/
inductive Notice where
  | version
  | help
  deriving DecidableEq

/-- What the value of an option may be. -/
inductive ValueSort where
  /-- Any text but the empty one. -/
  | path
  /-- The decimal text of an unsigned word. -/
  | word
  deriving DecidableEq

def ValueSort.admits : ValueSort → String → Bool
  | .path, s => !s.isEmpty
  | .word, s => (Decimal.readWord? s).isSome

inductive OptionKind where
  | notice (n : Notice)
  | flag
  | valued (sort : ValueSort)
  deriving DecidableEq

structure OptionForm where
  long : String
  short : Option Char
  kind : OptionKind
  deriving DecidableEq

/-- Why arguments are read no further. -/
inductive Stop where
  | notice (n : Notice)
  /-- The arguments are not what the command takes. -/
  | usage
  deriving DecidableEq

/-- The next thing that arguments say. -/
inductive Argument where
  /-- An option by its long name; the value of a flag is empty. -/
  | option (name value : String)
  | operand (text : String)
  /-- The mark after which everything is an operand. -/
  | mark
  deriving DecidableEq

namespace Argument

/-- Whether an argument is read as an option where a value could stand. -/
def looksLikeOption (arg : String) : Bool :=
  match arg.toList with
  | '-' :: _ :: _ => true
  | _ => false

/-- An option with a value in the same argument, if it has one, or else in the next. -/
def withValue (form : OptionForm) (attached : Option String) (rest : List String) :
    Except Stop (Argument × { r : List String // r.length ≤ rest.length }) :=
  match form.kind, attached with
  | .notice n, none => .error (.notice n)
  | .flag, none => .ok (.option form.long "", ⟨rest, Nat.le_refl _⟩)
  | .valued sort, some value =>
    if sort.admits value then .ok (.option form.long value, ⟨rest, Nat.le_refl _⟩) else .error .usage
  | .valued sort, none =>
    match rest with
    | value :: rest =>
      if !looksLikeOption value && sort.admits value then
        .ok (.option form.long value, ⟨rest, Nat.le_succ _⟩)
      else .error .usage
    | [] => .error .usage
  | _, some _ => .error .usage

/-- The value behind a letter in the same argument. -/
def attachedToLetter : List Char → Option String
  | [] => none
  | '=' :: cs => some (String.ofList cs)
  | cs => some (String.ofList cs)

/-- An option by its letter.  Letters that ask for a notice end the reading, whatever follows them. -/
def ofLetter (forms : List OptionForm) (letter : Char) (cs : List Char) (rest : List String) :
    Except Stop (Argument × { r : List String // r.length ≤ rest.length }) :=
  match forms.find? (·.short = some letter) with
  | none => .error .usage
  | some form =>
    match form.kind with
    | .notice n => .error (.notice n)
    | _ => withValue form (attachedToLetter cs) rest

/-- An option by its long name. -/
def ofLong (forms : List OptionForm) (cs : List Char) (rest : List String) :
    Except Stop (Argument × { r : List String // r.length ≤ rest.length }) :=
  let name := String.ofList (cs.takeWhile (· ≠ '='))
  match forms.find? (·.long = name) with
  | none => .error .usage
  | some form =>
    match cs.dropWhile (· ≠ '=') with
    | [] => withValue form none rest
    | _ :: value => withValue form (some (String.ofList value)) rest

/-- Reads one argument, with the next one if that is its value. -/
def read (forms : List OptionForm) (arg : String) (rest : List String) :
    Except Stop (Argument × { r : List String // r.length ≤ rest.length }) :=
  match arg.toList with
  | ['-', '-'] => .ok (.mark, ⟨rest, Nat.le_refl _⟩)
  | '-' :: '-' :: cs => ofLong forms cs rest
  | '-' :: c :: cs => ofLetter forms c cs rest
  | _ => .ok (.operand arg, ⟨rest, Nat.le_refl _⟩)

end Argument

/-- What has been given to a command. -/
structure Given where
  /-- The options by their long names, with their values. -/
  options : List (String × String)
  operands : List String
  deriving DecidableEq

namespace Given

def nothing : Given := ⟨[], []⟩

def value? (g : Given) (name : String) : Option String :=
  (g.options.find? (·.1 = name)).map Prod.snd

/-- Whether a flag is given. -/
def has (g : Given) (name : String) : Bool := (g.value? name).isSome

/-- The value of an option that takes a word. -/
def word? (g : Given) (name : String) : Option UInt64 := (g.value? name).bind Decimal.readWord?

/-- Adds an option that is not given yet. -/
def addOption (g : Given) (name value : String) : Except Stop Given :=
  if g.has name then .error .usage else .ok { g with options := g.options ++ [(name, value)] }

def addOperands (g : Given) (texts : List String) : Given := { g with operands := g.operands ++ texts }

/-- Reads arguments to the end; there may be at most `most` operands. -/
def read (forms : List OptionForm) (most : Nat) (g : Given) : List String → Except Stop Given
  | [] => .ok g
  | arg :: rest =>
    match Argument.read forms arg rest with
    | .error stop => .error stop
    | .ok (.mark, ⟨rest, _⟩) =>
      if g.operands.length + rest.length ≤ most then .ok (g.addOperands rest) else .error .usage
    | .ok (.operand text, ⟨rest, _⟩) =>
      if g.operands.length < most then read forms most (g.addOperands [text]) rest else .error .usage
    | .ok (.option name value, ⟨rest, _⟩) =>
      match g.addOption name value with
      | .error stop => .error stop
      | .ok g => read forms most g rest
termination_by args => args.length
decreasing_by all_goals exact Nat.lt_succ_of_le (by assumption)

/-- Reads arguments up to the first operand; gives that and what follows it. -/
def readToOperand (forms : List OptionForm) (g : Given) :
    List String → Except Stop (Given × String × List String)
  | [] => .error .usage
  | arg :: rest =>
    match Argument.read forms arg rest with
    | .error stop => .error stop
    | .ok (.mark, _) => .error .usage
    | .ok (.operand text, ⟨rest, _⟩) => .ok (g, text, rest)
    | .ok (.option name value, ⟨rest, _⟩) =>
      match g.addOption name value with
      | .error stop => .error stop
      | .ok g => readToOperand forms g rest
termination_by args => args.length
decreasing_by exact Nat.lt_succ_of_le (by assumption)

end Given

end EventRelay
