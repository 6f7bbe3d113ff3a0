import Roster.Provider
import Roster.Value.Convert

/-!
# Providers in memory

A provider whose identities are given by a configuration. Identities are found by their external
id, groups also by their principal name (the first that has it). With direct mapping on, a group
reference tells the principal name of the group, and an unknown one its own id.
-/

namespace Roster

/-- A provider whose identities are all at hand, by what their external ids stand for. -/
structure Memory where
  name : Value
  directMapping : Bool := false
  identities : Assoc Key Identity := []

namespace Memory

/-- Where log lines of this part come from. -/
def source : String := "providers.memory"

/-- A reference into the provider. -/
def ref (m : Memory) (id : Value) : Ref := ⟨id, m.name⟩

/-- The identity made of an id and what is known about it; a principal name that counts as false is
none. -/
def identity (m : Memory) (kind : Kind) (id : Value) (groups : List (Option Ref))
    (principalName : Value) (properties : Fields) : Identity where
  id
  principalName := principalName.orElse id
  ref := some (m.ref id)
  kind
  groups
  properties := .mapping properties

/-- Adds an identity, in place of one with the same id. -/
def add (m : Memory) (i : Identity) : Except Failure Memory := do
  return { m with identities := m.identities.set (← i.id.toKey) i }

/-- Removes the identity with an id. -/
def remove (m : Memory) (id : Value) : Except Failure Memory := do
  return { m with identities := m.identities.erase (← id.toKey) }

/-- The identity with an external id. -/
def find? (m : Memory) (id : Value) : Except Failure (Option Identity) := do
  return m.identities.lookup (← id.toKey)

/-- The identity behind a reference. -/
def resolve (m : Memory) (r : Ref) : Except Failure (Option Identity) :=
  if r.provider == m.name then m.find? r.id else .ok none

def user? (m : Memory) (id : Value) : Except Failure (Option Identity) := do
  return (← m.find? id).filter fun i => i.kind = .user

def group? (m : Memory) (name : Value) : Option Identity :=
  (m.identities.map (·.2)).find? fun i => i.kind = .group && i.principalName == name

/-- All users in the order in which they were added. -/
def users (m : Memory) : List Identity :=
  (m.identities.map (·.2)).filter fun i => i.kind = .user

/-- The principal name of a group reference. -/
def directName (m : Memory) (r : Ref) : Except Failure Value := do
  match ← m.find? r.id with
  | some i => return i.principalName
  | none => return r.id

/-- The provider that answers from memory. -/
def provider (m : Memory) : Provider where
  name := m.name
  direct := m.directMapping
  lookup r := Reply.ofResult (m.resolve r)
  nameOf r := Reply.ofResult ((m.directName r).map some)
  user id := Reply.ofResult (m.user? id)
  group name := pure (m.group? name)
  users := m.users.map fun i => pure (some i)

/-! ## Reading a configuration -/

/-- The identity that an entry of a list describes. Its groups are ids of this provider. -/
def entryIdentity (m : Memory) (kind : Kind) (entry : Value) : Except Failure Identity := do
  let some fields := entry.mapping? | throw .malformed
  let some id := fields.lookup (.text "id") | throw (.missingKey "id")
  let principalName := (fields.lookup (.text "principal_name")).getD .null
  let groups ← ((fields.lookup (.text "groups")).getD (.list [])).toItems
  let properties ←
    (((fields.lookup (.text "properties")).getD .null).orElse (.mapping [])).toMapping
  return m.identity kind id (groups.map fun g => some (m.ref g)) principalName properties

/-- Adds the identities of a list of entries. -/
def addEntries (kind : Kind) (m : Memory) (v : Value) : Except Failure Memory := do
  (← (v.orElse (.list [])).toItems).foldlM (fun m e => do m.add (← entryIdentity m kind e)) m

/-- The provider that a configuration describes. -/
def ofConfig (name config : Value) : Reply Memory := do
  let some fields := config.mapping? | throw .malformed
  let part (key : String) : Value := (fields.lookup (.text key)).getD .null
  let m : Memory := { name, directMapping := (part "direct_mapping").truthy }
  let m ← Reply.ofResult (addEntries .group m (part "groups"))
  let m ← Reply.ofResult (addEntries .user m (part "users"))
  let count := m.identities.length
  Reply.log .info source s!"Loaded in-memory provider {name} with {count} identities"
  return m

end Memory

end Roster
