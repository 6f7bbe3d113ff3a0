import Roster.Record
import Roster.Value.Convert

/-!
# Policy

A policy says how the records of one provider are synchronised, separately for users and groups.
It is built from the `sync` section of a configuration, which may hold values of any shape: what is
only used later (an expiration time, a mapped property name) is kept as it is, the rest is
converted at once and a value that cannot be converted is a failure.
-/

namespace Roster

/-- How user records are synchronised. -/
structure UserPolicy where
  /-- Groups every user becomes a member of. -/
  autoMembership : NameSet := ∅
  /-- Local property names with the external names they are copied from. -/
  propertyMapping : Fields := []
  /-- How long a record counts as fresh, in seconds. -/
  expirationTime : Value := .int 3600
  /-- How many hops of nested groups are followed. -/
  nestingDepth : Int := 1
  /-- Whether memberships are kept as names on the user. -/
  dynamicMembership : Bool := false
  /-- Whether records of the legacy mode are migrated when they are synchronised. -/
  enforceDynamic : Bool := false

/-- How group records are synchronised. -/
structure GroupPolicy where
  autoMembership : NameSet := ∅
  propertyMapping : Fields := []
  expirationTime : Value := .int 3600
  /-- Whether groups exist locally without member lists. -/
  dynamicGroups : Bool := false

/-- How the records of one provider are synchronised. -/
structure Policy where
  /-- The name of the provider. -/
  provider : Value
  user : UserPolicy := {}
  group : GroupPolicy := {}

namespace Policy

def hasDynamicGroups (p : Policy) : Bool := p.group.dynamicGroups

/-- Whether records of the legacy mode are forced onto the dynamic path. -/
def enforcesDynamic (p : Policy) : Bool := p.user.enforceDynamic || p.group.dynamicGroups

/-- The auto-membership groups for users or for groups. -/
def autoMembershipFor (p : Policy) (isGroup : Bool) : NameSet :=
  if isGroup then p.group.autoMembership else p.user.autoMembership

/-- Whether a reference points into the configured provider. -/
def owns (p : Policy) (r : Ref) : Bool := r.provider == p.provider

/-- Whether there is a reference and it points into the configured provider. -/
def ownsOption (p : Policy) (r : Option Ref) : Bool := r.any p.owns

theorem owns_iff {p : Policy} {name other : String} {r : Ref} (h : p.provider = .text name)
    (hr : r.provider = .text other) : p.owns r = true ↔ other = name := by
  simp [owns, h, hr]

/-- A switch of a section. -/
def switch (part : Fields) (key : String) : Bool := ((part.lookup (.text key)).getD .null).truthy

/-- A subsection; an absent one is empty. -/
def subsection (fields : Fields) (key : String) : Except Failure Fields :=
  match (fields.lookup (.text key)).getD (.mapping []) with
  | .mapping fs => .ok fs
  | _ => .error .malformed

/-- The user policy of a section. -/
def userOf (part : Fields) : Except Failure UserPolicy := do
  let autoMembership ← ((part.lookup (.text "auto_membership")).getD (.list [])).toNames
  let propertyMapping ← ((part.lookup (.text "property_mapping")).getD (.mapping [])).toMapping
  let nestingDepth ← ((part.lookup (.text "membership_nesting_depth")).getD (.int 1)).toInteger
  return {
    autoMembership, propertyMapping, nestingDepth
    expirationTime := (part.lookup (.text "expiration_time")).getD (.int 3600)
    dynamicMembership := switch part "dynamic_membership"
    enforceDynamic := switch part "enforce_dynamic_membership" }

/-- The group policy of a section. -/
def groupOf (part : Fields) : Except Failure GroupPolicy := do
  let autoMembership ← ((part.lookup (.text "auto_membership")).getD (.list [])).toNames
  let propertyMapping ← ((part.lookup (.text "property_mapping")).getD (.mapping [])).toMapping
  return {
    autoMembership, propertyMapping
    expirationTime := (part.lookup (.text "expiration_time")).getD (.int 3600)
    dynamicGroups := switch part "dynamic_groups" }

/-- The policy of a `sync` section. -/
def ofSection (v : Value) : Except Failure Policy := do
  let some fields := v.mapping? | throw .malformed
  let user ← userOf (← subsection fields "user")
  let group ← groupOf (← subsection fields "group")
  let some provider := fields.lookup (.text "provider") | throw (.missingKey "provider")
  return { provider, user, group }

/-- The policy of a configuration. -/
def ofConfig (config : Value) : Except Failure Policy := do
  let some fields := config.mapping? | throw .malformed
  let some sync := fields.lookup (.text "sync") | throw (.missingKey "sync")
  ofSection sync

end Policy

end Roster
