import Roster.Sync.Context

/-!
# Unwinding memberships

When a record leaves the legacy mode, the memberships that synchronisation made are taken back: its
memberships in groups of the provider and in auto-membership groups end, and so do those of the
groups it leaves, one after the other. Groups of the provider that are left without members are
deleted, unless groups are dynamic. The answer is the set of the names of all groups of the
provider that were met.

Every group met ends a membership that existed when the walk came to its member, so a walk is no
deeper than there are memberships.
-/

namespace Roster

namespace Store

/-- How many direct memberships there are. -/
def membershipCount (s : Store) : Nat := s.members.foldl (fun n p => n + p.2.length) 0

end Store

/-- What a walk has found: names of groups, and groups left without members. -/
structure Unwound where
  names : NameSet := ∅
  orphans : Assoc Key Record := []

namespace Context

variable (ctx : Context)

/-- Ends one membership of a record. -/
def endMembership (r g : Record) : Sync Unit := do
  let _ ← Sync.removeMember g r.id
  let (member, group) := (r.id, g.id)
  Sync.audit s!"Membership removed: member={member} group={group}"

/-- Whether a group is left without members and can be deleted. -/
def isOrphaned (g : Record) : Sync Bool := do
  if ctx.policy.hasDynamicGroups then return false
  match (← get).store.membersOf g with
  | .ok members => return members.isEmpty
  | .error f => throw f

/-- Takes back one membership of a record and goes on with the group. -/
def unwindGroup (log : Channel) (r : Record) (goOn : Record → Unwound → Sync Unwound)
    (found : Unwound) (g : Record) : Sync Unwound := do
  if ctx.owns g.ref then
    let name ← Sync.result g.principalName.toScalar
    endMembership r g
    let found ← goOn g { found with names := found.names.insert name }
    if ← ctx.isOrphaned g then
      let key ← Sync.result g.id.toKey
      return { found with orphans := found.orphans.set key g }
    return found
  else if (ctx.policy.autoMembershipFor r.isGroup).contains (← Sync.result g.id.toScalar) then
    endMembership r g
    goOn g found
  else
    let (member, group) := (r.id, g.id)
    Sync.log log .debug s!"Keeping membership of {member} in unmanaged group {group}"
    return found

/-- Takes back the memberships of a record and of the groups above it. -/
def unwindFrom (log : Channel) : Nat → Record → Unwound → Sync Unwound
  | 0, _, found => return found
  | bound + 1, r, found => do
    let groups ← Sync.result ((← get).store.memberOf r.id)
    groups.foldlM (ctx.unwindGroup log r (unwindFrom log bound)) found

/-- Deletes a group without members; a deletion that fails is logged. -/
def deleteOrphan (log : Channel) (g : Record) : Sync Unit := do
  let id := g.id
  try
    Sync.remove id
    Sync.audit s!"Orphaned group removed: id={id}"
    Sync.log log .info s!"Removed orphaned group {id}"
  catch f =>
    if f.isA .store then
      Sync.audit s!"Orphaned group removal FAILED: id={id}"
      Sync.log log .error (s!"Failed to remove orphaned group {id}: " ++ f.text)
    else throw f

/-- Takes back the memberships of a record and deletes the groups left without members. -/
def unwind (r : Record) (log : Option Channel) : Sync NameSet := do
  let log := log.getD ⟨"cleaner", none⟩
  let bound := (← get).store.membershipCount + 1
  let found ← ctx.unwindFrom log bound r {}
  (found.orphans.map (·.2)).forM (deleteOrphan log)
  return found.names

end Context

end Roster
