import Roster.FileTree
import Roster.Value

/-!
# Files of a working folder

Configurations and store snapshots are files that hold one document. They are named by paths; in the
place of a path a whole number stands for a file that was opened before, and there are none.
-/

namespace Roster

/-- What a file holds: a document, or text that is none. -/
inductive FileContent where
  | document (v : Value)
  | unreadable

/-- An empty file holds an empty document. -/
instance : Inhabited FileContent := ⟨.document .null⟩

/-- The number of a file that was opened before, where a value stands for one. -/
def Value.handle? : Value → Option Int
  | .number (.int n) => some n
  | .bool b => some (if b then 1 else 0)
  | _ => none

/-- Whether a number is within the range of the numbers of files. -/
def isHandle (n : Int) : Bool := -2147483648 ≤ n && n ≤ 2147483647

/-- The files of a working folder. -/
abbrev Files := FileTree FileContent

end Roster
