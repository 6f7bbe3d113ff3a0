import Roster.Ref
import Roster.Value

/-!
# External identities

A provider describes each of its users and groups by a snapshot: which local id it has, what it is
called, which groups it declares itself a direct member of (in the provider's order) and its
properties. Ids and names are texts as a rule but may be any values. Snapshots are never changed.

Something else may be handed in as an identity. Of that nothing is known but its id, its kind and
where it lives (`Identity.isKnown`).
-/

namespace Roster

/-- What an identity says it is. Only users and groups can be synchronised. -/
inductive Kind where
  | user
  | group
  | unknown (name : String)
deriving DecidableEq

/-- The word for a kind. -/
def Kind.name : Kind → String
  | user => "user"
  | group => "group"
  | unknown n => n

/-- A snapshot of a user or group of a provider. -/
structure Identity where
  /-- The id of the local record. -/
  id : Value
  principalName : Value
  /-- Where the identity lives. -/
  ref : Option Ref
  kind : Kind
  /-- The groups it is declared a direct member of; an entry may lead nowhere. -/
  groups : List (Option Ref) := []
  properties : Value := .mapping []

/-- Whether the identity is a group. -/
def Identity.isGroup (i : Identity) : Bool := i.kind = .group

/-- Whether the identity is a user or a group. What is neither has no name, groups or properties. -/
def Identity.isKnown (i : Identity) : Bool := !(i.kind matches .unknown _)

end Roster
