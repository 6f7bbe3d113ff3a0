import Roster.Ref

/-!
# Outcomes of a synchronisation
-/

namespace Roster

/-- The time reported where no record was synchronised. -/
def Value.never : Value := .int (-1)

/-- What was done with an identity. -/
inductive Status where
  | nop
  | add
  | update
  | delete
  | foreign
deriving DecidableEq, Inhabited

namespace Status

/-- The word for a status. -/
def name : Status → String
  | nop => "nop"
  | add => "add"
  | update => "update"
  | delete => "delete"
  | foreign => "foreign"

/-- All statuses, in the order in which they are reported. -/
def all : List Status := [nop, add, update, delete, foreign]

end Status

/-- The outcome of synchronising one identity. -/
structure SyncResult where
  id : Value
  ref : Option Ref
  /-- What counts as true stands for a group. -/
  group : Value
  /-- When the record was synchronised, minus one when no record was. -/
  lastSynced : Value
  status : Status

end Roster
