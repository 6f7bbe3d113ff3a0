import Roster.File
import Roster.Sync.World

/-!
# Saving and loading the store

The store is kept in a file that holds its snapshot. Loading replaces the store by the one the file
describes; where there is no file it starts empty. A file that cannot be read, or describes no
store, leaves the store as it is. Saving begins with an empty file, which is what is left if there
is no snapshot of the store.
-/

namespace Roster

namespace Sync

/-- Where a snapshot can be written to. -/
def targetOf (files : Files) (path : Value) : Except Failure Place :=
  match path with
  | .text p =>
    match files.target p with
    | .ok place => .ok place
    | .error .zeroByte => .error (.badPath .zeroByte p)
    | .error _ => .error (.unwritableSnapshot p)
  | v =>
    match v.handle? with
    | some n =>
      if !isHandle n then .error .malformed
      else .error (if n < 0 then .negativeHandle else .unwritableSnapshot v.display)
    | none => .error .malformed

/-- Saves the store. The answer is the files afterwards, and what went wrong once there was a file
to write to. -/
def save (files : Files) (path : Value) : Sync (Files × Option Failure) := do
  let place ← result (targetOf files path)
  let s := (← get).store
  match s.snapshot with
  | .error f => return (files.write place (.document .null), some f)
  | .ok document =>
    let count := s.records.length
    log storeChannel .info s!"Saved {count} records to {path}"
    return (files.write place (.document document), none)

/-- What a snapshot at a path holds; nothing where there is no file. -/
def snapshotAt (files : Files) (path : Value) : Except Failure (Option FileContent) :=
  match path with
  | .text p =>
    match files.nodeAt p with
    | .absent => .ok none
    | .folder => .error (.badPath .isFolder p)
    | .file => .ok (files.read p).toOption
  | v =>
    match v.handle? with
    | some n => if isHandle n then .ok none else .error .overflow
    | none => .error .malformed

/-- Replaces the store by the one that a document describes. -/
def restore (document : Value) : Sync Unit := do replaceStore (← build document)

/-- Replaces the store by the one that a file describes. -/
def load (path : Value) (content : Option FileContent) : Sync Unit := do
  match content with
  | none =>
    log storeChannel .info s!"Store snapshot {path} not found, starting with an empty store"
    replaceStore {}
  | some .unreadable => throw (.unreadableSnapshot path.display)
  | some (.document v) =>
    restore (v.orElse (.mapping []))
    let count := (← get).store.records.length
    log storeChannel .info s!"Loaded {count} records from {path}"

end Sync

end Roster
