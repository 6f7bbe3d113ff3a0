import Roster.Sync.Attributes

/-!
# Member lists

The standard representation of memberships: every group that an identity declares exists as a local
group with the record as a member, and so do the groups of those groups, up to a number of hops.
Memberships in groups of the provider that are no longer declared end; groups of other providers and
local groups are left alone.
-/

namespace Roster

namespace Context

variable (ctx : Context)

/-- The record of a new identity. -/
def newRecord (i : Identity) (isGroup : Bool) : Record where
  id := i.id
  group := .bool isGroup
  principalName := i.principalName
  ref := i.ref
  mode := ctx.recordMode

/-- The group behind a reference, if it is known, a group and of the configured provider. -/
def externalGroup (r : Option Ref) (log : Option Channel) : Sync (Option Identity) := do
  match r with
  | none => return none
  | some r =>
    if !ctx.policy.owns r then return none
    match ← ctx.resolve r with
    | some i =>
      if i.isGroup then return some i
      notAGroup r
    | none => notAGroup r
where
  /-- Says that a reference leads to no group. -/
  notAGroup (r : Ref) : Sync (Option Identity) := do
    let words ← Sync.shown (some r)
    Sync.log (log.getD ⟨"default_sync", none⟩) .debug s!"Not an external group ({words}), ignoring"
    return none

/-- The local group of an external one, created and synchronised when there is none; none when its
id belongs to a record that is no group of the provider. -/
def localGroup (i : Identity) (log : Channel) : Sync (Option (Subject × Record)) := do
  match ← Sync.lookUp i.id with
  | none =>
    let x ← Sync.create (ctx.newRecord i true)
    ctx.syncGroup i x (some log)
    return some (x, ← Sync.record x)
  | some (x, g) =>
    if g.isGroup && ctx.owns g.ref then return some (x, g)
    let id := g.id
    Sync.log log .warning s!"Local record {id} is not a group of this provider, skipping membership"
    return none

/-- Makes a record a member of one declared group and goes on with the group itself. The answer is
what the declared ids so far stand for. -/
def declareGroup (log : Channel) (r : Record) (goOn : Identity → Subject → Sync Unit)
    (declared : List Key) (ref : Option Ref) : Sync (List Key) := do
  if !ctx.owns ref then
    let words ← Sync.shown ref
    Sync.log log .debug s!"Ignoring group {words} from another provider"
    return declared
  match ← ctx.externalGroup ref (some log) with
  | none => return declared
  | some i =>
    match ← ctx.localGroup i log with
    | none => return declared
    | some (x, g) =>
      let _ ← Sync.addMember g r.id
      let key ← Sync.result g.id.toKey
      goOn i x
      return key :: declared

/-- Ends the membership in a group of the provider that is not declared. -/
def pruneGroup (log : Channel) (r : Record) (declared : List Key) (g : Record) : Sync Unit := do
  let key ← Sync.result g.id.toKey
  if !declared.contains key && ctx.owns g.ref then
    let _ ← Sync.removeMember g r.id
    let (member, group) := (r.id, g.id)
    Sync.log log .debug s!"Removed {member} from group {group}"

/-- Represents the declared groups of an identity by member lists, up to a number of hops. -/
def materialize (log : Channel) : Nat → Identity → Subject → Sync Unit
  | 0, _, _ => return
  | depth + 1, i, x => do
    requireKnown i
    let r ← Sync.record x
    let declared ← i.groups.foldlM (ctx.declareGroup log r (materialize log depth)) []
    let groups ← Sync.result ((← get).store.memberOf r.id)
    groups.forM (ctx.pruneGroup log r declared)

end Context

end Roster
