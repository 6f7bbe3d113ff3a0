import Roster.FileTree

/-!
# Folders of a file tree

A folder is made together with the folders above it that are missing. The names in a folder are
what lies directly in it. The place of a file can be changed while its content stays.
-/

namespace Roster

namespace FileTree

variable {α : Type}

/-- Makes one folder, in a folder that is there; a folder that is there already is left alone. -/
def makeFolder (t : FileTree α) (path : String) : Except PathFault (FileTree α) := do
  let p ← t.locate path
  match t.node p with
  | .folder => return t
  | .file => throw .notFolder
  | .absent => return { t with folders := t.folders ++ [p] }

/-- The paths to the folders on the way to a path, and the path itself. -/
def ways (path : String) : List String :=
  let parts := (path.splitOn "/").filter (· != "")
  let root := if path.startsWith "/" then "/" else ""
  (List.range parts.length).map fun n => root ++ "/".intercalate (parts.take (n + 1))

/-- Makes a folder and, before it, all that are missing above it. -/
def makeFolders (t : FileTree α) (path : String) : Except PathFault (FileTree α) :=
  match (ways path).reverse with
  | [] => if path.isEmpty then .error .missing else .ok t
  | last :: above =>
    let new := above.takeWhile fun way => t.nodeAt way = .absent
    (new.reverse ++ [last]).foldlM makeFolder t

/-- The name of a place in a folder, for places below it. -/
def nameIn (folder p : Place) : Option String :=
  if folder.isPrefixOf p then p[folder.length]? else none

/-- The names in a folder. -/
def namesIn (t : FileTree α) (folder : Place) : List String :=
  ((t.files.map (·.1) ++ t.folders).filterMap (nameIn folder)).eraseDups

/-- Moves a file to another place; what was there is gone. -/
def move (t : FileTree α) (source target : Place) : FileTree α :=
  match t.files.lookup source with
  | some content => (t.remove source).write target content
  | none => t

end FileTree

end Roster
