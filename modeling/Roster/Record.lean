import Roster.NameSet
import Roster.Ref
import Roster.Value

/-!
# Local records

A record is a local user or group. Its membership is represented in one of two modes: as member
lists of local groups (`legacy`), or as the flattened names of all groups a user belongs to, kept
on the user itself (`dynamic`). Member lists belong to the store, not to the record.

Ids, names and times come from documents and may be any values. The other parts of a record have a
form of their own; they may be overwritten with any value too, and then a record that no longer has
the form cannot be written or shown.
-/

namespace Roster

/-- How the memberships of a record are represented. -/
inductive Mode where
  | legacy
  | dynamic
deriving DecidableEq, Inhabited

namespace Mode

/-- The word for a mode in a snapshot. -/
def name : Mode → String
  | legacy => "legacy"
  | dynamic => "dynamic"

/-- The mode that a word names. -/
def ofName? : String → Option Mode
  | "legacy" => some legacy
  | "dynamic" => some dynamic
  | _ => none

theorem ofName?_name (m : Mode) : ofName? m.name = some m := by cases m <;> rfl

end Mode

/-- The names on a record: a set, or a value that was put in its place. -/
inductive Names where
  | set (s : NameSet)
  | value (v : Value)

/-- A local user or group. -/
structure Record where
  id : Value
  /-- What counts as true makes the record a group. -/
  group : Value
  principalName : Value
  /-- The external identity it is bound to. -/
  ref : Option Ref := none
  /-- None if what was put there is no mode. -/
  mode : Option Mode := some .dynamic
  /-- When the record was synchronised, null if it was not. -/
  lastSynced : Value := .null
  /-- The flattened group names; meaningful in dynamic mode only. -/
  names : Option Names := none
  /-- A mapping, unless another value was put in its place. -/
  properties : Value := .mapping []
deriving Inhabited

namespace Record

/-- Whether the record is a group. -/
def isGroup (r : Record) : Bool := r.group.truthy

/-- Whether memberships are still represented by member lists. -/
def isLegacy (r : Record) : Bool := r.mode = some .legacy

/-- The record in dynamic mode, with the given names. -/
def toDynamic (r : Record) (names : NameSet) : Record :=
  { r with mode := some .dynamic, names := some (.set names) }

end Record

end Roster
