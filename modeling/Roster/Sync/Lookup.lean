import Roster.Provider
import Roster.Sync.World

/-!
# Lookups

A synchronisation asks its provider in two ways: for the identity behind a reference
(`Provider.fetch`), and for the principal name of a group reference (`Provider.principalName`). Both
are written down, for which there have to be words for the reference, and take their turn; the first
is counted besides. Then the failures planned for them strike.
-/

namespace Roster

namespace Provider

variable (p : Provider)

/-- The identity behind a reference. -/
def fetch (r : Ref) : Sync (Option Identity) := do
  let _ ← Sync.shown (some r)
  Sync.call (.resolve (some r))
  let struck ← Sync.takeTurn
  modify fun w => { w with lookups := w.lookups + 1 }
  let w ← get
  if struck || w.faults.resolve.contains r.id
      || w.faults.resolveAfter.any fun n => n < Number.int w.lookups then
    throw (.lookupRefused r.id)
  Sync.reply (p.lookup r)

/-- The principal name of a group reference; the group is fetched if the reference does not tell
it. -/
def principalName (r : Ref) : Sync Value := do
  let _ ← Sync.shown (some r)
  Sync.call (.direct (some r))
  let struck ← Sync.takeTurn
  if struck || (← get).faults.direct.contains r.id then throw (.mappingRefused r.id)
  if !p.direct then throw (.noDirectNames p.name)
  match ← Sync.reply (p.nameOf r) with
  | some name => return name
  | none =>
    match ← p.fetch r with
    | some i => if i.isGroup then return i.principalName else notAGroup
    | none => notAGroup
where
  /-- Fails because the reference leads to no group. -/
  notAGroup : Sync Value := do throw (.notExternalGroup (← Sync.shown (some r)))

end Provider

end Roster
