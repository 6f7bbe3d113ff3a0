import Roster.Policy
import Roster.Sync.Lookup

/-!
# Contexts

A context says on whose behalf a synchronisation runs: under which policy, with which provider, and
in which of two ways memberships are represented. The standard way makes member lists of local
groups; the dynamic way keeps names on the users.
-/

namespace Roster

/-- On whose behalf a synchronisation runs. -/
structure Context where
  policy : Policy
  provider : Provider
  /-- Whether memberships are kept as names on the users. -/
  dynamic : Bool

namespace Context

variable (ctx : Context)

/-- The mode of the records that a synchronisation creates. -/
def recordMode : Mode := if ctx.dynamic then .dynamic else .legacy

/-- Whether a reference points into the configured provider. -/
def owns (r : Option Ref) : Bool := ctx.policy.ownsOption r

/-- The identity behind a reference. -/
def resolve (r : Ref) : Sync (Option Identity) := ctx.provider.fetch r

/-- The principal name of a group reference. -/
def directName (r : Ref) : Sync Value := ctx.provider.principalName r

end Context

end Roster
