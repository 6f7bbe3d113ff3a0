import Roster.Sync.Context

/-!
# Attributes of a record

What a record takes over from its identity besides memberships: the principal name and properties,
either all of them or those that the policy maps, and the time of the synchronisation.

What is neither a user nor a group has none of these (`requireKnown`).

In a standard context a record also becomes a member of the auto-membership groups that exist. In a
dynamic context it does not.
-/

namespace Roster

/-- The properties after copying one: a property the identity lacks is taken away. -/
def copyProperty (external own : Fields) (localName name : Scalar) : Fields :=
  match (external.lookup name).getD .null with
  | .null => own.erase localName
  | v => own.set localName v

/-- The properties after copying all that a mapping names, and the failure that ended the copying:
a list or a mapping is no name. -/
def copyProperties (external own : Fields) : List (Scalar × Value) → Fields × Option Failure
  | [] => (own, none)
  | (localName, .scalar name) :: rest =>
    copyProperties external (copyProperty external own localName name) rest
  | _ :: _ => (own, some .malformed)

theorem lookup_copyProperty (external own : Fields) (localName name : Scalar) :
    (copyProperty external own localName name).lookup localName
      = (external.lookup name).filter fun v => !(v matches .null) := by
  unfold copyProperty
  cases external.lookup name with
  | none => simp [Assoc.lookup_erase]
  | some v =>
    simp only [Option.getD_some, Option.filter_some]
    split
    · simp [Assoc.lookup_erase]
    · simp [Assoc.lookup_set]

namespace Context

variable (ctx : Context)

/-- Fails unless the identity is a user or a group. -/
def requireKnown (i : Identity) : Sync Unit := do
  if !i.isKnown then throw .malformed

/-- Copies the principal name and the properties of an identity, the latter by a mapping from own to
external names; a mapping that counts as false stands for all properties. -/
def syncProperties (i : Identity) (x : Subject) (mapping : Value) : Sync Unit := do
  requireKnown i
  Sync.update x fun r => { r with principalName := i.principalName }
  if !mapping.truthy then
    let properties ← Sync.result i.properties.toMapping
    modify fun w => w.replaceProperties x (.mapping properties)
  else
    match mapping, i.properties, (← Sync.record x).properties with
    | .mapping names, .mapping external, .mapping own =>
      let (properties, failure) := copyProperties external own names
      modify fun w => w.editProperties x properties
      if let some f := failure then throw f
    | _, _, _ => throw .malformed

/-- Adds a record to one auto-membership group, if there is such a group. -/
def joinGroup (r : Record) (log : Channel) (groupId : Value) : Sync Unit := do
  match ← Sync.lookUp groupId with
  | some (_, g) =>
    if g.isGroup then
      let _ ← Sync.addMember g r.id
    else missing
  | none => missing
where
  /-- Says that there is no such group. -/
  missing : Sync Unit := Sync.log log .warning s!"Auto-membership group {groupId} does not exist"

/-- Adds a record to auto-membership groups, given by their ids in order. -/
def applyMembership (x : Subject) (groups : Except Failure (List Value)) (log : Option Channel) :
    Sync Unit := do
  let r ← Sync.record x
  if ctx.dynamic then
    let id := r.id
    Sync.log (log.getD ⟨"context", none⟩) .debug
      s!"Dynamic membership sync enabled, omitting auto-membership for {id}"
  else
    let ids ← Sync.result groups
    ids.forM (joinGroup r (log.getD ⟨"default_sync", none⟩))

/-- The auto-membership groups of a policy in increasing order. -/
def inOrder (groups : NameSet) : Except Failure (List Value) := do
  return (← Store.orderedNames groups).map .scalar

/-- Marks a record as synchronised now. -/
def stamp (x : Subject) : Sync Unit := do
  let now := (← get).clock
  Sync.update x fun r => { r with lastSynced := now }

/-- Synchronises a group except for its members. -/
def syncGroup (i : Identity) (x : Subject) (log : Option Channel) : Sync Unit := do
  syncProperties i x (.mapping ctx.policy.group.propertyMapping)
  ctx.applyMembership x (inOrder ctx.policy.group.autoMembership) log
  stamp x

/-- Whether a record is due again, an expiration time after it was synchronised. -/
def isExpired (r : Record) (expiration : Value) : Sync Bool := do
  match r.lastSynced with
  | .null => return true
  | t =>
    let age ← Sync.result ((← get).clock.minus t)
    match expiration.number? with
    | none => throw .malformed
    | some e => return decide (e ≤ age)

end Context

end Roster
