import Roster.FileTree.Wildcard
import Roster.Logging.Calendar
import Roster.Logging.Threshold
import Roster.Redaction
import Roster.Text.Lowercase
import Roster.Value.Convert

/-!
# Logging

Log lines of all parts go to a file and, unless this is turned off, to the console, each with a
threshold of its own. Credentials are masked on the way.

The file may be rotated daily: the first line that is written on a later day than the last one moves
the file away, to a name with the date of that earlier day, and of the files with a date in their
name only the latest are kept. Where a folder is in the way, or the number of files to keep is not a
whole one, a rotation stops half done; the line is not written then, and the next one begins the
rotation anew. Apart from that, files beside the log file whose names begin like its own are removed
when logging is set up, once they are older than the retention period.

Logging is set up once; further attempts change nothing (`Logging.setUp_of_configured`).
-/

namespace Roster

namespace Logging

/-- Where lines go. -/
inductive Target where
  | rotatedFile
  | file
  | console
deriving DecidableEq

/-- The kind of a target in answers. -/
def Target.name : Target → String
  | rotatedFile => "TimedRotatingFileHandler"
  | file => "FileHandler"
  | console => "StreamHandler"

/-- A target with the threshold of the lines that go there. -/
structure Handler where
  target : Target
  threshold : Threshold

/-- A rotation that is due: the log file, the day it was last written on, and how many files with a
date to keep, all of them if the number is not positive. -/
structure Rotation where
  file : Place
  day : Int
  keep : Number

/-- The state of logging, and what it has written. -/
structure State where
  /-- The moment at which all happens, in seconds. -/
  now : Int
  /-- The working folder; files hold the seconds since they were last changed. -/
  tree : FileTree Rat := {}
  /-- The seconds since the folders were last changed that have not been changed lately. -/
  folderAges : Assoc Place Rat := []
  configured : Bool := false
  folder : Option String := none
  /-- For how many days old files are kept. -/
  retention : Value := .int 7
  threshold : Threshold := some .warning
  handlers : List Handler := []
  rotation : Option Rotation := none
  fileText : String := ""
  consoleText : String := ""
  /-- Warnings that are printed because they concern logging itself. -/
  printed : List String := []

/-- The name of the log file. -/
def fileName : String := "sync.log"

/-- What the names of all parts of the program begin with in the log. -/
def family : String := "identity_sync."

/-- Where log lines of this part come from. -/
def source : String := family ++ "logging_setup"

/-- The folder for the log file: the given one, or the working folder, with a warning. -/
def usableFolder (s : State) (folder : String) : Except Failure State :=
  match s.tree.makeFolders folder with
  | .ok tree => .ok { s with folder := some folder, tree }
  | .error .zeroByte => .error (.badPath .zeroByte folder)
  | .error _ => .ok { s with
      folder := some "."
      printed := s.printed ++
        [s!"Warning: cannot create log directory {folder}, logging to the working directory"] }

/-! ## Old files -/

/-- Removes a file if it is old enough, and notes its path. Folders cannot be removed. -/
def pruneOne (limit : Rat) (found : List String × State) (path : String) : List String × State :=
  let (removed, s) := found
  let unremoved := (removed,
    { s with printed := s.printed ++ ["Warning: could not remove old log file " ++ path] })
  match s.tree.locate path with
  | .error _ => unremoved
  | .ok p =>
    match s.tree.files.lookup p, s.tree.node p with
    | some age, _ =>
      if limit < age then (removed ++ [path], { s with tree := s.tree.remove p })
      else (removed, s)
    | none, .folder =>
      if ((s.folderAges.lookup p).any fun age => limit < age) then unremoved else (removed, s)
    | none, _ => unremoved

/-- Removes the files whose names begin like that of the log file, if they are older than the
retention period. The answer lists what was removed. -/
def prune (s : State) : Except Failure (List String × State) :=
  match s.folder with
  | none => .ok ([], s)
  | some folder =>
    match s.retention.number? with
    | none => .error .malformed
    | some days =>
      if days ≤ 0 then .ok ([], s)
      else
        let limit := days.toRat * Calendar.daySeconds
        .ok ((s.tree.expand (FileTree.inFolder folder (fileName ++ ".*"))).foldl (pruneOne limit)
          ([], s))

/-! ## Rotation -/

/-- The day that the log file was last written on, if that was an earlier day. -/
def lastDay? (s : State) (file : Place) : Option Int := do
  let age ← s.tree.files.lookup file
  let day := Calendar.dayOf ((s.now : Rat) - age).floor
  if day < Calendar.dayOf s.now then some day else none

/-- Whether a file beside the log file has a date in its name. -/
def isDated (name : String) : Bool :=
  name.startsWith fileName && (name.splitOn ".").tail.any Calendar.isDate

/-- The earliest of the dated files, as many as there are too many. How many these are cannot be
told for a number of files that is not a whole one, unless there are fewer files. -/
def Rotation.excess (r : Rotation) (dated : List String) : Option (List String) :=
  match r.keep with
  | .int n => some (if 0 < n then dated.take (dated.length - n.toNat) else [])
  | keep => if keep ≤ 0 || Number.int dated.length < keep then some [] else none

/-- Removes files up to the first folder; the answer says whether there was none. -/
def removeFiles (tree : FileTree Rat) : List Place → FileTree Rat × Bool
  | [] => (tree, true)
  | p :: rest => if tree.node p = .folder then (tree, false) else removeFiles (tree.remove p) rest

/-- Moves the log file away, removes the earliest of the files that have a date in their names, and
begins an empty log file. The answer says whether all of this was done. -/
def Rotation.apply (r : Rotation) (tree : FileTree Rat) : FileTree Rat × Bool :=
  let folder := r.file.dropLast
  let aside := folder ++ [s!"{fileName}.{Calendar.dateText r.day}"]
  if tree.node aside = .folder then (tree, false)
  else
    let tree := (tree.remove aside).move r.file aside
    let dated := ((tree.namesIn folder).filter isDated).mergeSort fun a b => a ≤ b
    match r.excess dated with
    | none => (tree, false)
    | some excess =>
      match removeFiles tree (excess.map fun name => folder ++ [name]) with
      | (tree, true) => (tree.write r.file 0, true)
      | stopped => stopped

/-- Rotates the log file if that is due; the answer says whether it can be written to. -/
def rotate (s : State) : State × Bool :=
  match s.rotation with
  | some r =>
    let (tree, done) := r.apply s.tree
    ({ s with tree, rotation := if done then none else some r }, done)
  | none => (s, true)

/-! ## Writing -/

/-- A line as it stands in the file. -/
def fileLine (level : Level) (name text : String) : String :=
  "[" ++ level.name ++ "] " ++ name ++ " - " ++ text ++ "\n"

/-- A line as it stands on the console. -/
def consoleLine (level : Level) (text : String) : String :=
  "[" ++ level.name ++ "] " ++ text ++ "\n"

/-- Hands a line to one target. It is masked there, and stays masked for the targets after it. -/
def handle (level : Level) (name : String) (s : State × String) (h : Handler) : State × String :=
  if h.threshold.admits level then
    let text := scrub s.2
    match h.target with
    | .console => ({ s.1 with consoleText := s.1.consoleText ++ consoleLine level text }, text)
    | .rotatedFile =>
      let (rotated, done) := rotate s.1
      let written := if done then fileLine level name text else ""
      ({ rotated with fileText := rotated.fileText ++ written }, text)
    | .file => ({ s.1 with fileText := s.1.fileText ++ fileLine level name text }, text)
  else s

/-- Writes a line. As long as there is no target, warnings and whatever is more severe appear on the
console as they are. -/
def write (level : Level) (name text : String) (s : State) : State :=
  if !s.threshold.admits level then s
  else if s.handlers.isEmpty then
    if Threshold.admits (some .warning) level then
      { s with consoleText := s.consoleText ++ text ++ "\n" }
    else s
  else (s.handlers.foldl (handle level (if name = "" then "root" else name)) (s, text)).1

/-! ## Setting up -/

/-- The target that the setting of the rotation asks for. -/
def fileTarget (config : Fields) : Target :=
  let rotation := lowercase ((config.lookup (.text "rotation")).getD (.text "daily")).display
  if rotation = "daily" || rotation = "midnight" then .rotatedFile else .file

/-- The handlers that a configuration asks for. -/
def handlersOf (config : Fields) (threshold : Threshold) : Except Failure (List Handler) := do
  let file : Handler := ⟨fileTarget config, threshold⟩
  if ((config.lookup (.text "console_output")).getD (.bool true)).truthy then
    let level := (config.lookup (.text "console_level")).getD .null
    return [file, ⟨.console, ← Threshold.ofSetting level .warning⟩]
  else return [file]

/-- The log file is there once it is to be written to. -/
def openFile (s : State) (path : String) : Except Failure (Place × State) := do
  match s.tree.locate path with
  | .error fault => throw (.badPath fault path)
  | .ok p =>
    match s.tree.node p with
    | .folder => throw (.badPath .isFolder path)
    | .file => return (p, s)
    | .absent => return (p, { s with tree := s.tree.write p 0 })

/-- Sets logging up by a configuration that is a mapping. -/
def setUpBy (config : Fields) (s : State) : Except Failure State := do
  let .text folder := (config.lookup (.text "log_dir")).getD (.text "logs") | throw .malformed
  let s ← usableFolder s folder
  let path := FileTree.inFolder (s.folder.getD ".") fileName
  let retention := (config.lookup (.text "retention_days")).getD (.int 7)
  let threshold ← Threshold.ofSetting ((config.lookup (.text "level")).getD .null) .info
  let (file, s) ← openFile s path
  let handlers ← handlersOf config threshold
  let keep := retention.number?.getD 0
  let rotation := (lastDay? s file).map fun day => { file, day, keep : Rotation }
  let (removed, s) ← prune { s with retention, threshold, handlers, rotation }
  let (level, days, count) := (threshold.name, retention.display, removed.length)
  return write .info source
    s!"Logging to {path} at {level}, keeping {days} days ({count} old files removed)"
    { s with configured := true }

/-- Sets logging up, once. -/
def setUp (config : Value) (s : State) : Except Failure State :=
  if s.configured then .ok s
  else
    match config.orElse (.mapping []) with
    | .mapping fields => setUpBy fields s
    | _ => .error .malformed

theorem setUp_of_configured {s : State} (h : s.configured = true) (config : Value) :
    setUp config s = .ok s := by
  simp [setUp, h]

/-- The last folder that there is on the way to a place. -/
def nearestFolder (tree : FileTree Rat) (p : Place) : Place :=
  let lengths := (List.range p.length).reverse
  p.take ((lengths.find? fun n => tree.node (p.take n) = .folder).getD 0)

/-- The state with a file or, if its path ends in a slash, a folder that was last changed some
seconds ago. A folder in which something is made has changed just now. -/
def withItem (s : State) (path : String) (age : Rat) : State :=
  let p := (FileTree.names path).filter (· != ".")
  let s :=
    if s.tree.node p = .absent then
      { s with folderAges := s.folderAges.erase (nearestFolder s.tree p) }
    else s
  if path.endsWith "/" then
    { s with
      tree := { s.tree with folders := s.tree.folders ++ [p] }
      folderAges := s.folderAges.set p age }
  else { s with tree := s.tree.write p age }

/-- The lines of the log file. A line ends where a line feed or a carriage return stands, or the two
of them. -/
def fileLines (s : State) : List String :=
  ((s.fileText.replace "\r\n" "\n").replace "\r" "\n").splitOn "\n"

/-- The lines on the console. -/
def consoleLines (s : State) : List String := s.consoleText.splitOn "\n"

/-- The lines of the warnings that were printed. -/
def printedLines (s : State) : List String :=
  (String.join (s.printed.map fun text => text ++ "\n")).splitOn "\n"

/-- The paths of all files of the working folder, in increasing order. -/
def filePaths (s : State) : List String :=
  ((s.tree.files.filter fun f => f.1.head?.all fun name => name != ".." && name != "/").map fun f =>
    FileTree.pathOf f.1).mergeSort fun a b => a ≤ b

end Logging

end Roster
