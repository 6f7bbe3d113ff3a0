import Roster.CommandLine
import Roster.Logging
import Roster.Value.Json
import Std.Time.DateTime.Timestamp

/-!
# The program

Reads what the command line asks for, runs it, and writes back what is left: the store, the log and
the outcome of a health check. Documents are read and written as JSON.

The program has no connection to directories. A configuration whose provider is one fails to
connect.
-/

namespace Roster

namespace Program

/-! ## Reading -/

/-- What is at a path: a file with its content, or a free place in a folder. -/
def readFile (path : Value) : IO Files := do
  let .text path := path | return {}
  try
    let text ← IO.FS.readFile path
    return .ofFile path (((Json.parse? text).map FileContent.document).getD .unreadable)
  catch _ => return { FileTree.ofFile path FileContent.unreadable with files := [] }

/-- All that is in one of two trees. -/
def both (s t : Files) : Files := ⟨s.files ++ t.files, s.folders ++ t.folders⟩

/-- The environment variables that a configuration depends on. -/
def readEnvironment : IO Environment := do
  let names := "CONFIG_PATH" :: Config.overrides.map fun (_, _, name) => name
  let found ← names.mapM fun name => do return (← IO.getEnv name).map fun v => (name, v)
  return found.filterMap id

/-- The seconds since the beginning of 1970. -/
def now : IO Int := do return (← Std.Time.Timestamp.now).toSecondsSinceUnixEpoch.val

/-- The files that a request needs: its configuration, and the store that this names. -/
def readFiles (env : Environment) (request : CommandLine.Request) : IO Files := do
  let path := Config.pathFor request.path env
  let config ← readFile path
  match (Config.load config path env).outcome with
  | .ok fields => return both config (← readFile (Job.storePath fields))
  | .error _ => return config

/-- What a command line finds around it. -/
def surroundings (args : List String) : IO Job.Surroundings := do
  let environment ← readEnvironment
  let files ← match CommandLine.parse args with
    | .ok request => readFiles environment request
    | .error _ => pure {}
  return {
    files, environment
    script := { serverError := some "there is no connection to directories" }
    sleep := Sleep.timed
    clock := .int (← now) }

/-! ## Writing -/

/-- Logging as the configuration wants it; without one, warnings go to the console. -/
def loggingOf (now : Int) (config : Except Failure Fields) : Logging.State :=
  let set := config.bind fun fields =>
    Logging.setUp (.mapping (Config.sectionOf fields "logging")) { now }
  set.toOption.getD { now }

/-- Writes log lines to the log file and the console. -/
def writeLog (s : Logging.State) (lines : List Line) : IO Unit := do
  let s := lines.foldl (fun s l => Logging.write l.level (Logging.family ++ l.source) l.text s) s
  (← IO.getStderr).putStr s.consoleText
  if let some folder := s.folder then
    IO.FS.createDirAll folder
    let file ← IO.FS.Handle.mk (FileTree.inFolder folder Logging.fileName) .append
    file.putStr s.fileText

/-- Writes the store that a finished job left. -/
def writeStore (config : Except Failure Fields) (s : Job.State) : IO Unit := do
  if let (true, .ok (.text path)) := (s.finished, config.map Job.storePath) then
    if let .ok (.document d) := s.files.read path then
      IO.FS.writeFile path (Json.render d ++ "\n")

/-- Runs a command line; the answer is its exit code. -/
def run (args : List String) : IO UInt32 := do
  let around ← surroundings args
  let (code, health, s) := CommandLine.run around args
  let path := ((CommandLine.parse args).toOption.map (·.path)).getD .null
  let config := (Config.load around.files path around.environment).outcome
  writeLog (loggingOf (← now) config) s.world.journal.lines
  writeStore config s
  if let some h := health then IO.println (Json.render h.document)
  return code.toUInt32

end Program

end Roster

/-- The command line of the program. -/
def main (args : List String) : IO UInt32 := Roster.Program.run args
