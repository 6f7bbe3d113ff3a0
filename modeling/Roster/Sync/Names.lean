import Roster.Sync.Context

/-!
# Collecting names

The dynamic representation of memberships: the principal names of all groups that can be reached
from an identity's declared groups within a number of hops. Every hop takes one from the depth that
is left, so cycles end without a record of visited groups, and a group that is reached along
several paths is expanded once per path.

References into other providers are skipped. A group that cannot be looked up is logged and its
branch given up; the names collected so far are kept.
-/

namespace Roster

namespace Context

variable (ctx : Context)

/-- Adds a name, which has to be a scalar. -/
def addName (names : NameSet) (name : Value) : Sync NameSet := do
  return names.insert (← Sync.result name.toScalar)

/-- Adds the name that a reference itself tells. -/
def collectDirect (log : Channel) (names : NameSet) (r : Ref) : Sync NameSet := do
  try addName names (← ctx.directName r)
  catch f =>
    if f.isA .lookup then
      let words ← Sync.shown (some r)
      Sync.log log .error (s!"Failed to map group reference {words}: " ++ f.text)
      pure names
    else throw f

/-- Looks a group up; a lookup that fails is logged and finds nothing. -/
def lookUpGroup (log : Channel) (r : Ref) : Sync (Option Identity) := do
  try
    match ← ctx.resolve r with
    | some i => if i.isGroup then pure (some i) else notAGroup
    | none => notAGroup
  catch f =>
    if f.isA .lookup then
      let words ← Sync.shown (some r)
      Sync.log log .error
        (s!"Failed to resolve group {words}, skipping its nested membership: " ++ f.text)
      pure none
    else throw f
where
  /-- Says that the reference leads to no group. -/
  notAGroup : Sync (Option Identity) := do
    let words ← Sync.shown (some r)
    Sync.log log .debug s!"Not an external group ({words}), ignoring"
    return none

/-- Adds the name of the group behind a reference and the names that lie beyond it. -/
def collectGroup (log : Channel) (goOn : NameSet → List (Option Ref) → Sync NameSet)
    (names : NameSet) (r : Ref) : Sync NameSet := do
  match ← ctx.lookUpGroup log r with
  | none => return names
  | some i => goOn (← addName names i.principalName) i.groups

/-- Adds the names of all groups within a number of hops. -/
def collect (log : Channel) : Nat → NameSet → List (Option Ref) → Sync NameSet
  | 0, names, _ => return names
  | depth + 1, names, refs =>
    let own := (refs.filterMap id).filter ctx.policy.owns
    if depth = 0 && ctx.provider.direct then own.foldlM (ctx.collectDirect log) names
    else own.foldlM (ctx.collectGroup log (collect log depth)) names

end Context

end Roster
