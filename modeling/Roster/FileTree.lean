import Roster.Assoc

/-!
# Files and folders

A file tree is a working folder with what lies under it. A path leads through it name by name: `.`
stays, `..` goes to the folder above, and every name but the last has to lead to a folder. A path
that leads nowhere has a fault, the one that is met first on the way.

A place is a path in its shortest form; the places above the working folder are written with `..`,
and nothing is known about them beyond that they are folders. Of the places below the root the
folders that every system has are known, and the null device, a file that is always empty.
-/

namespace Roster

/-- Why a path leads nowhere, or not to a file. -/
inductive PathFault where
  | missing
  | notFolder
  | isFolder
  | nameTooLong
  | zeroByte
deriving DecidableEq

/-- The names from the working folder to a file or folder. -/
abbrev Place := List String

/-- What is at a place. -/
inductive Node where
  | file
  | folder
  | absent
deriving DecidableEq

/-- A working folder with its files; folders of their own need to be listed only if they are
empty. -/
structure FileTree (α : Type) where
  files : Assoc Place α := []
  folders : List Place := []

namespace FileTree

variable {α : Type}

/-- The names of a path; a slash at the end asks for a folder. -/
def names (path : String) : List String :=
  let parts := path.splitOn "/"
  parts.filter (· != "") ++ (if parts.getLast? = some "" then ["."] else [])

/-- The folder that a place is in. -/
def parent (p : Place) : Place :=
  if p = ["/"] then p else if p.all (· == "..") then ".." :: p else p.dropLast

/-- The names of the folders that lie directly below the root of every system. -/
def rootFolders : List String :=
  ["bin", "boot", "dev", "etc", "home", "lib", "media", "mnt", "opt", "proc", "root", "run", "sbin",
    "srv", "sys", "tmp", "usr", "var"]

/-- The place of the null device. -/
def nullDevice : Place := ["/", "dev", "null"]

/-- Whether a place is a folder of every system. -/
def isStandardFolder (p : Place) : Bool :=
  match p with
  | ["/"] => true
  | ["/", name] => rootFolders.contains name
  | p => p.all (· == "..")

/-- What is at a place: a folder is there if it is listed or something lies under it. -/
def node (t : FileTree α) (p : Place) : Node :=
  if p = nullDevice || t.files.has p then .file
  else if isStandardFolder p || t.folders.any (p.isPrefixOf ·)
      || t.files.any (fun f => p.isPrefixOf f.1) then .folder
  else .absent

/-- The longest name that a file can have, in bytes. -/
def maxName : Nat := 255

/-- The longest path, in bytes. -/
def maxPath : Nat := 4095

/-- The place that follows from a place by a name. -/
def step (p : Place) (name : String) : Place :=
  if name = "." then p else if name = ".." then parent p else p ++ [name]

/-- Follows names from a place. -/
def follow (t : FileTree α) (p : Place) : List String → Except PathFault Place
  | [] => .ok p
  | name :: rest =>
    match t.node p with
    | .file => .error .notFolder
    | .absent => .error .missing
    | .folder =>
      if maxName < name.utf8ByteSize then .error .nameTooLong
      else follow t (step p name) rest

/-- The place that a path leads to, where there may be nothing yet. -/
def locate (t : FileTree α) (path : String) : Except PathFault Place :=
  if path.contains '\x00' then .error .zeroByte
  else if path.isEmpty then .error .missing
  else if maxPath < path.utf8ByteSize then .error .nameTooLong
  else t.follow (if path.startsWith "/" then ["/"] else []) (names path)

/-- What a path leads to. -/
def nodeAt (t : FileTree α) (path : String) : Node :=
  match t.locate path with
  | .ok p => t.node p
  | .error _ => .absent

/-- The content of the file that a path leads to. -/
def read [Inhabited α] (t : FileTree α) (path : String) : Except PathFault α := do
  let p ← t.locate path
  if p = nullDevice then return default
  match t.files.lookup p, t.node p with
  | some content, _ => return content
  | none, .folder => throw .isFolder
  | none, _ => throw .missing

/-- Where a path leads when a file is to be written there: to a file or to a free place. -/
def target (t : FileTree α) (path : String) : Except PathFault Place := do
  let p ← t.locate path
  if t.node p = .folder then throw .isFolder
  return p

/-- The tree after a file was written; what is written to the null device is gone. -/
def write (t : FileTree α) (p : Place) (content : α) : FileTree α :=
  if p = nullDevice then t else { t with files := t.files.set p content }

/-- The tree without a file. -/
def remove (t : FileTree α) (p : Place) : FileTree α := { t with files := t.files.erase p }

/-- A place as a path. -/
def pathOf (p : Place) : String := "/".intercalate p

/-- The place that a path names, everything on its way being a folder. -/
def placeOf (path : String) : Place :=
  (names path).foldl step (if path.startsWith "/" then ["/"] else [])

/-- The tree with one file, by its path, and with all folders on the way to it. -/
def ofFile (path : String) (content : α) : FileTree α :=
  let parts := path.splitOn "/"
  { files := [(placeOf path, content)]
    folders := (List.range parts.length).map fun n => placeOf ("/".intercalate (parts.take n)) }

end FileTree

end Roster
