import Roster.Identity
import Roster.Journal

/-!
# Identity providers

What the synchronisation needs of a provider. Its functions return replies: a provider can write
log lines and calls down, and it can fail, but it cannot touch the local store.
-/

namespace Roster

/-- A source of external identities. -/
structure Provider where
  name : Value
  /-- Whether group references can be mapped to principal names without fetching the group. -/
  direct : Bool
  /-- The identity behind a reference. -/
  lookup : Ref → Reply (Option Identity)
  /-- The principal name that a group reference itself tells, if it does. -/
  nameOf : Ref → Reply (Option Value)
  /-- A user by its id. -/
  user : Value → Reply (Option Identity)
  /-- A group by its name. -/
  group : Value → Reply (Option Identity)
  /-- All users, one entry after the other; an entry may turn out to be none. -/
  users : List (Reply (Option Identity))

namespace Provider

/-- Whether a reference points into the provider. -/
def owns (p : Provider) (r : Ref) : Bool := r.provider == p.name

end Provider

end Roster
