import EventRelay.Log
import EventRelay.Text.Decimal
import EventRelay.Text.Lines
/-!
# Which log lines are wanted

A variable of the environment says which lines of the log are wanted, in directives with commas between
them: `target=level` for the lines of a part of the program and of those whose name begins alike, `level`
for all lines, and `[{field}]` in between for lines that have a value of this name.  Of the directives
that a line falls under, the one that says most about it decides; a line under none is not wanted.

A directive can also be about tasks that have a name or a value.  There are no such tasks, so it admits no
line; still it counts as a directive.
-/

namespace EventRelay

/-- Lines about a target and with a field, up to a level. -/
structure LogRule where
  target : Option String
  field : Option String
  /-- How far down lines are wanted, from 0 for none to 5 for all. -/
  verbosity : Nat
  deriving DecidableEq

/-- The place of a level on the scale from 0 to 5. -/
def LogLevel.depth : LogLevel → Nat
  | .warn => 2
  | .info => 3
  | .debug => 4

namespace LogRule

/-- Whether a line falls under a rule. -/
def concerns (r : LogRule) (e : LogEntry) : Bool :=
  r.target.all (fun t => t.toList.isPrefixOf e.target.toList) && r.field.all (· ∈ e.names)

/-- How much a rule says: the longer the target the more, then with a field more than without. -/
def weight (r : LogRule) : Nat × Nat :=
  ((r.target.map fun t => t.utf8ByteSize + 1).getD 0, if r.field.isSome then 1 else 0)

/-- Whether a rule gives way to a later one. -/
def yields (r later : LogRule) : Bool :=
  let (size, fields) := r.weight
  let (size', fields') := later.weight
  size < size' || (size = size' && (fields < fields' ||
    (fields = fields' && r.field.getD "" ≤ later.field.getD "")))

/-- The rule among some that decides on a line. -/
def deciding? (rules : List LogRule) (e : LogEntry) : Option LogRule :=
  rules.foldl (fun best r =>
    if r.concerns e && best.all (·.yields r) then some r else best) none

end LogRule

/-- The lines that are wanted. -/
structure LogFilter where
  rules : List LogRule
  deriving DecidableEq

namespace LogFilter

/-- Without a directive every line is wanted down to information. -/
def default : LogFilter := ⟨[⟨none, none, 3⟩]⟩

def admits (f : LogFilter) (e : LogEntry) : Bool :=
  (LogRule.deciding? f.rules e).any fun r => e.level.depth ≤ r.verbosity

/-! ### Reading -/

def levelNames : List String := ["off", "error", "warn", "info", "debug", "trace"]

/-- Reads a level: its place on the scale or its name in letters of either size. -/
def level? (s : String) : Option Nat :=
  let name := String.ofList (s.toList.map Char.toLower)
  match Decimal.readWord? s with
  | some n => if n.toNat ≤ 5 then some n.toNat else none
  | none => if name ∈ levelNames then some (levelNames.idxOf name) else none

/-- Reads the level behind an equals sign; none stands for all lines. -/
def levelOrAll? (cs : List Char) : Option Nat := if cs.isEmpty then some 5 else level? (String.ofList cs)

/-- A directive: a rule on lines, or one about tasks. -/
inductive Directive where
  | lines (rule : LogRule)
  | tasks
  deriving DecidableEq

/-- The directive with this name of a task and this field; a field with a value is about tasks too. -/
def directive (target : Option String) (task : Bool) (field : List Char) (verbosity : Nat) : Directive :=
  if task || '=' ∈ field then .tasks
  else .lines ⟨target, if field.isEmpty then none else some (String.ofList field), verbosity⟩

/-- Reads what follows the brackets. -/
def finish? (target : Option String) (task : Bool) (field rest : List Char) : Option Directive :=
  match rest with
  | [] => some (directive target task field 5)
  | '=' :: level => (levelOrAll? level).map (directive target task field)
  | _ => none

/-- Reads what follows an opening bracket. -/
def brackets? (target : Option String) (cs : List Char) : Option Directive :=
  let name := cs.takeWhile fun c => c ≠ ']' && c ≠ '{'
  match cs.drop name.length with
  | ']' :: rest => finish? target true [] rest
  | '{' :: rest =>
    let field := rest.takeWhile (· ≠ '}')
    match rest.drop field.length with
    | '}' :: ']' :: rest =>
      if field.isEmpty then none else finish? target (!name.isEmpty) field rest
    | _ => none
  | _ => none

/-- Whether a target can begin with a character. -/
def opensTarget (c : Char) : Bool := c.isAlphanum || c = '-' || c = ':' || c = '_' || 128 ≤ c.toNat

/-- Reads a directive.  White space in front is not looked for where the target and the level begin, so a
directive behind it says something else, and white space at the end belongs to what stands there. -/
def directive? (s : String) : Option Directive :=
  let cs := s.toList
  let trimmed := Text.trimChars cs
  match trimmed with
  | [] => none
  | '[' :: _ => if trimmed = cs then brackets? none (cs.drop 1) else none
  | c :: _ =>
    if !opensTarget c then none
    else
      let size := (trimmed.takeWhile fun c => c ≠ '=' && c ≠ '[').length
      let target := String.ofList (cs.take size)
      match trimmed.drop size with
      | [] =>
        match level? s with
        | some n => some (.lines ⟨none, none, n⟩)
        | none => some (.lines ⟨some s, none, 5⟩)
      | '=' :: _ => (levelOrAll? (cs.drop (size + 1))).map fun n => .lines ⟨some target, none, n⟩
      | _ => if trimmed = cs then brackets? (some target) (cs.drop (size + 1)) else none

def Directive.rule? : Directive → Option LogRule
  | .lines rule => some rule
  | .tasks => none

/-- Reads directives; one that is not understood is passed over. -/
def ofText (s : String) : LogFilter :=
  let directives := ((Text.pieces ',' s.toList).map String.ofList).filterMap directive?
  if directives.isEmpty then default else ⟨directives.filterMap Directive.rule?⟩

/-- The name of the variable that says which lines are wanted. -/
def variableName : String := "RUST_LOG"

def ofEnvironment (env : List (String × String)) : LogFilter := ofText ((env.lookup variableName).getD "")

example : ofText "a=WARN,2,b[\x7bline\x7d]" =
    ⟨[⟨some "a", none, 2⟩, ⟨none, none, 2⟩, ⟨some "b", some "line", 5⟩]⟩ := by decide +kernel

example : ofText "=x,a=y" = default ∧ ofText "[task]=off" = ⟨[]⟩ := by decide +kernel

end LogFilter

end EventRelay
