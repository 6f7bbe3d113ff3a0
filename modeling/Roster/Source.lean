import Roster.Directory.Connection
import Roster.Provider.Memory

/-!
# Sources of identities

A provider is held in memory or is a directory. A source is the state of either; the provider that
it currently is answers lookups.
-/

namespace Roster

/-- The state of a provider. -/
inductive Source where
  | memory (m : Memory)
  | directory (d : Directory)

namespace Source

/-- The provider as it currently is. -/
def provider : Source → Provider
  | memory m => m.provider
  | directory d => d.provider

/-- The name of the provider. -/
def name (s : Source) : Value := s.provider.name

end Source

end Roster
