import Roster.Sync.Membership

/-!
# Placeholders of groups

With dynamic groups, every group that a user is declared in exists locally, within a number of hops,
as a group with the attributes of the external one and without a member list. A group that cannot
be looked up ends the whole walk.
-/

namespace Roster

namespace Context

variable (ctx : Context)

/-- The local group that stands for an external one, created when there is none; none when its id
belongs to a record that is no group of the provider. -/
def placeholder (log : Channel) (r : Ref) (i : Identity) : Sync (Option Subject) := do
  match ← Sync.lookUp i.id with
  | none =>
    let x ← Sync.create (ctx.newRecord i true)
    let (id, words) := (i.id, ← Sync.shown (some r))
    Sync.audit s!"Group created: id={id} ref={words}"
    Sync.log log .debug s!"Created dynamic group {id}"
    return some x
  | some (x, g) =>
    if g.isGroup && ctx.owns g.ref then return some x
    let id := g.id
    Sync.log log .warning s!"Local record {id} is not a group of this provider, not materializing"
    return none

/-- Creates or refreshes the placeholder of one reference and goes on with the groups of that
group. -/
def ensureGroup (log : Channel) (goOn : List (Option Ref) → Sync Unit) (ref : Option Ref) :
    Sync Unit := do
  if let some r := ref then
    if let some i ← ctx.externalGroup r (some log) then
      if let some x ← ctx.placeholder log r i then
        ctx.syncGroup i x (some log)
        goOn i.groups

/-- Creates or refreshes the placeholders of the referenced groups and of the groups within the
given number of further hops. -/
def ensureGroups (log : Channel) : Nat → List (Option Ref) → Sync Unit
  | 0, refs => refs.forM (ctx.ensureGroup log fun _ => return)
  | more + 1, refs => refs.forM (ctx.ensureGroup log (ensureGroups log more))

end Context

end Roster
