import EventRelay.CommandLine.Options
/-!
# The command line

The commands of the program and how they are asked for: `import` stores events, `scan` lists stored
events, `req` follows a filter.  Options in front of the command concern the program as a whole.
-/

namespace EventRelay

/-- What the program is asked to do. -/
inductive Command where
  /-- Store the events of a file, or of the standard input. -/
  | importEvents (file : Option String)
  /-- List the stored events that a filter accepts.  `pause` is the time of a slice. -/
  | scan (filter : String) (pause : Option UInt64) (metrics countOnly : Bool)
  /-- Follow a filter, looking for new events every so many milliseconds. -/
  | req (filter : String) (pollMs : UInt64)
  deriving DecidableEq

/-- A command and the path of the settings. -/
structure Invocation where
  config : String
  command : Command
  deriving DecidableEq

namespace CommandLine

/-- Where the settings are, unless an option says otherwise. -/
def defaultConfig : String := "kestrel.toml"

def defaultPollMs : UInt64 := 250

def helpForm : OptionForm := ⟨"help", some 'h', .notice .help⟩

def programForms : List OptionForm :=
  [⟨"config", some 'c', .valued .path⟩, helpForm, ⟨"version", some 'V', .notice .version⟩]

def importForms : List OptionForm := [⟨"file", none, .valued .path⟩, helpForm]

def scanForms : List OptionForm :=
  [⟨"pause", none, .valued .word⟩, ⟨"metrics", none, .flag⟩, ⟨"count", none, .flag⟩, helpForm]

def reqForms : List OptionForm := [⟨"poll-ms", none, .valued .word⟩, helpForm]

def commandNames : List String := ["import", "scan", "req", "help"]

/-- Help on the program or on one command. -/
def readHelp : List String → Stop
  | [] => .notice .help
  | [name] => if name ∈ commandNames then .notice .help else .usage
  | _ => .usage

/-- Reads the arguments of a command. -/
def readCommand (name : String) (args : List String) : Except Stop Command :=
  match name with
  | "import" => do
    let g ← Given.nothing.read importForms 0 args
    return .importEvents (g.value? "file")
  | "scan" => do
    let g ← Given.nothing.read scanForms 1 args
    match g.operands with
    | [filter] => return .scan filter (g.word? "pause") (g.has "metrics") (g.has "count")
    | _ => .error .usage
  | "req" => do
    let g ← Given.nothing.read reqForms 1 args
    match g.operands with
    | [filter] => return .req filter ((g.word? "poll-ms").getD defaultPollMs)
    | _ => .error .usage
  | "help" => .error (readHelp args)
  | _ => .error .usage

/-- Reads the arguments of the program. -/
def read (args : List String) : Except Stop Invocation := do
  let (g, name, rest) ← Given.nothing.readToOperand programForms args
  return ⟨(g.value? "config").getD defaultConfig, ← readCommand name rest⟩

example : read ["-c", "a.toml", "scan", "--pause=5", "x"] =
    .ok ⟨"a.toml", .scan "x" (some 5) false false⟩ := by cbv

example : read ["scan", "x", "-c", "a.toml"] = .error .usage := by cbv

example : read ["-V", "-x"] = .error (.notice .version) := by cbv

end CommandLine

end EventRelay
