import EventRelay.Program
import EventRelay.Store.Journal
/-!
# The command

The outer layer of the program: it reads the files that a run may look at, runs it and does what its
outcome says.  Following a filter, it goes on until it is interrupted.
-/

namespace EventRelay.Main

/-- The bytes of a stream to its end. -/
partial def readAll (input : IO.FS.Stream) (before : ByteArray) : IO ByteArray := do
  let more ← input.read 65536
  if more.isEmpty then return before else readAll input (before ++ more)

/-- What the bytes of a file make of its place. -/
def placeOf (bytes : ByteArray) : Place :=
  match String.fromUTF8? bytes with
  | none => .binary
  | some s =>
    match Journal.read? s with
    | some store => .store store
    | none => .text s

/-- What stands under a path that is only read. -/
def look (path : String) : IO Place := do
  try
    return placeOf (← IO.FS.readBinFile path)
  catch e =>
    match e with
    | .inappropriateType none _ _ => return .directory
    | _ => return .free

/-- What stands under the path of a store.  Where a store may be made, making sure that it can be leaves an
empty file. -/
def lookForStore (l : Location) (path : String) : IO Place := do
  match ← look path with
  | .free =>
    if l.makes then
      try
        let _ ← IO.FS.Handle.mk path .append
        return .free
      catch _ => return .closed
    else return .free
  | p => return p

/-- The places under some paths. -/
def places (look : String → IO Place) (paths : List String) : IO (List (String × Place)) :=
  paths.mapM fun path => return (path, ← look path)

/-- Looks up a path among places. -/
def lookIn (found : List (String × Place)) (path : String) : Place :=
  ((found.find? (·.1 = path)).map Prod.snd).getD .free

/-- Splits what the system keeps of the environment into names and values. -/
def readVariables (s : String) : List (String × String) :=
  (Text.pieces '\x00' s.toList).map fun cs =>
    (String.ofList (cs.takeWhile (· ≠ '=')), String.ofList ((cs.dropWhile (· ≠ '=')).drop 1))

def environment : IO (List (String × String)) := do
  try
    return readVariables ((String.fromUTF8? (← IO.FS.readBinFile "/proc/self/environ")).getD "")
  catch _ => return []

/-- Time is not measured: a budget of nothing is used up whenever the clock is looked at, any other
never. -/
def clock (budget : UInt64) : Clock := if budget = 0 then .exhausted else .unlimited

/-- What stands where a store is kept. -/
def storePlaces (dbPath : String) : IO (List (String × Place)) := do
  match Location.ofText? dbPath with
  | none => return []
  | some l =>
    match l.file? with
    | none => return []
    | some path => return [(path, ← lookForStore l path)]

/-- The surroundings of a run.  Only an import of the standard input reads it. -/
def surroundings (args : List String) : IO Surroundings := do
  let env ← environment
  let home ← IO.getEnv "HOME"
  let bare : Surroundings := ⟨args, env, home, none, fun _ => .free, clock⟩
  match CommandLine.read args with
  | .error _ => return bare
  | .ok invocation =>
    let found ← places look (Program.settingsPaths invocation.config)
    let bare := { bare with look := lookIn found }
    match Program.settings bare invocation with
    | .error _ => return bare
    | .ok settings =>
      let found := (← storePlaces settings.dbPath) ++ found
      match invocation.command with
      | .importEvents none =>
        let stdin := String.fromUTF8? (← readAll (← IO.getStdin) .empty)
        return { bare with look := lookIn found, stdin }
      | .importEvents (some file) =>
        return { bare with look := lookIn (found ++ (← places look [file])) }
      | _ => return { bare with look := lookIn found }

/-- What is said of a failure. -/
def failureLines (e : Failure) : List String :=
  ("Error: " ++ e.context) :: match e.cause? with
    | some cause => ["", "Caused by:", "    " ++ cause]
    | none => []

def putLines (output : IO.FS.Stream) (lines : List String) : IO Unit := do
  for line in lines do output.putStrLn line
  output.flush

/-- Leaves a file behind. -/
def leave : Left → IO Unit
  | some (path, .store store) => IO.FS.writeFile path (Journal.write store)
  | some (path, .text text) => IO.FS.writeFile path text
  | _ => pure ()

/-- Does what an outcome says. -/
def finish (o : Outcome) : IO UInt32 := do
  leave o.left
  putLines (← IO.getStdout) o.out
  putLines (← IO.getStderr) (o.log.map LogEntry.text ++ ((o.failure.map failureLines).getD []))
  if o.code = Program.usageCode then putLines (← IO.getStderr) Program.help
  return o.code.toUInt32

/-- Steps a follower until it is idle. -/
partial def settle (store : RowStore) (clock : Clock) (f : Follow) : IO Follow := do
  if f.isIdle then return f
  let (f, deliveries) := f.step store.view fun _ => clock
  putLines (← IO.getStdout) (deliveries.filterMap (Follow.line? store))
  settle store clock f

/-- Follows a filter. -/
partial def follow (f : Follow) (clock : Clock) (pollMs : UInt64) (path : String) (store : RowStore) :
    IO Unit := do
  let f ← settle store clock (f.look store.lastSeq)
  IO.sleep pollMs.toUInt32
  let store := match ← look path with
    | .store s => s
    | _ => store
  follow f clock pollMs path store

/-- Runs the program with these arguments; the exit code. -/
def start (args : List String) : IO UInt32 := do
  match Program.run (← surroundings args) with
  | .over o => finish o
  | .following f budget pollMs path store =>
    IO.FS.writeFile path (Journal.write store)
    follow f (clock budget) pollMs path store
    return 0

end EventRelay.Main

/-- Runs the program. -/
def main (args : List String) : IO UInt32 := EventRelay.Main.start args
