import Roster.Source
import Roster.Sync
import Roster.Sync.Persistence

/-!
# Steps of a session

A session performs steps on a provider, a store and a context. A step names the records and
identities it works on by arguments (`RecordArg`, `IdentityArg`), which are looked up when the step
is performed. Its outcome holds the answer, or why there is none, what was written down, and the
store afterwards.
-/

namespace Roster

namespace Session

/-- How a step names a record. -/
inductive RecordArg where
  /-- The record of the store with an id. -/
  | id (id : Value)
  /-- A record that an earlier step kept under a name. -/
  | held (name : Value)

/-- How a step names an identity. -/
inductive IdentityArg where
  | user (id : Value)
  | group (name : Value)
  | ref (r : Option Ref)
  /-- An identity that the step brings along, if it can be made. -/
  | given (i : Except Failure Identity)

/-- What a reference is read from. -/
inductive RefArg where
  | ref (r : Option Ref)
  | record (r : RecordArg)
  | identity (i : IdentityArg)

/-- What a step assigns to a field of a record. -/
inductive Assignment where
  | id (v : Value)
  | group (v : Value)
  | principalName (v : Value)
  | ref (r : Option Ref)
  /-- Puts something that is no mode in the place of the mode. -/
  | mode
  | lastSynced (v : Value)
  | names (v : Value)
  | properties (v : Value)
  /-- An assignment that cannot be made. -/
  | refused (f : Failure)
  /-- A field that records do not have otherwise. -/
  | other

/-- A record to be created; where no mode is given it is a dynamic one. -/
structure NewRecord where
  isGroup : Bool
  id : Value
  principalName : Value
  ref : Option Ref
  mode : Option Value

/-- A context of the session: chosen by the policy, or one of the two ways. -/
inductive ContextChoice where
  | byPolicy
  | standard
  | dynamic

/-- A step of a session. -/
inductive Step where
  /-- A step whose arguments cannot be made; it may be one for dynamic contexts only. -/
  | invalid (needsDynamic : Bool) (f : Failure)
  /- the session itself -/
  | setClock (t : Value)
  | advanceClock (t : Value)
  | plan (faults : Faults)
  /-- Builds another context; where there is nothing to build it from the context stays. -/
  | policy (part : Value)
  | transaction (steps : List Step) (abort : Option Value)
  /- the store -/
  | create (r : NewRecord) (keep : Option Value)
  | get (id : Value) (keep : Option Value)
  | look (r : RecordArg)
  | assign (r : RecordArg) (changes : List Assignment)
  | remove (id : Value)
  | records
  | memberOf (r : RecordArg)
  | members (g : RecordArg)
  | addMember (g r : RecordArg)
  | removeMember (g r : RecordArg)
  | names (r : RecordArg)
  | setNames (r : RecordArg) (names : Value)
  | convert (r : RecordArg) (names : Value)
  | restore (snapshot : Value)
  | reload (path : Value)
  | load (content : Option FileContent)
  /- the provider -/
  | addIdentity (kind : Kind) (id : Value) (groups : List (Value ⊕ Ref)) (principalName : Value)
      (properties : Value)
  | removeIdentity (id : Value)
  | resolve (r : Option Ref)
  | direct (r : Option Ref)
  | owns (r : Option Ref)
  | user (id : Value)
  | group (name : Value)
  | users
  | info
  | connect (policy : Except Failure (RetryPolicy Value)) (script : Script)
  | close (unbinding : Option LinkOutcome)
  | use
  /- the context -/
  | sync (i : IdentityArg)
  | syncId (id : Value)
  | update (i : IdentityArg) (r : RecordArg)
  | syncExternalGroup (i : IdentityArg)
  | convertMembership (r : RecordArg)
  | classify (i : IdentityArg)
  | collect (refs : List (Option Ref)) (depth : Value) (names : Value)
  | ensure (refs : List (Option Ref)) (depth : Value)
  | unwind (r : RecordArg)
  | membership (i : IdentityArg) (r : RecordArg) (depth : Value)
  | legacyMembership (i : IdentityArg) (r : RecordArg) (depth : Value)
  | joinGroups (r : RecordArg) (groups : Value)
  | properties (i : IdentityArg) (r : RecordArg) (mapping : Value)
  | externalGroup (r : Option Ref)
  | isOwn (x : RefArg)
  | isExpired (r : RecordArg) (expiration : Value)

instance : Inhabited Step := ⟨.records⟩

/-- Why a step was not performed. -/
inductive Refusal where
  | noRecord
  | noIdentity
  | notDynamic

/-- The word for a refusal. -/
def Refusal.name : Refusal → String
  | noRecord => "NoRecord"
  | noIdentity => "NoIdentity"
  | notDynamic => "NotDynamic"

/-- Why a step has no answer. -/
inductive Stop where
  | failed (f : Failure)
  | refused (r : Refusal)

/-- A record as it was shown, and the place of what was shown of it. -/
structure Sight where
  record : Record
  mode : Mode
  /-- The names in increasing order. -/
  names : Option (List Value)
  place : Nat

mutual

/-- The answer of a step. -/
inductive Answer where
  | none
  | flag (b : Bool)
  | plain (v : Value)
  | ids (xs : List Value)
  | record (r : Option Sight)
  | look (r : Sight) (stored : Bool)
  /-- Names in increasing order. -/
  | names (ns : Option (List Value))
  | collected (ns : List Value)
  | identity (i : Option Identity)
  | identities (xs : List Identity)
  | result (r : SyncResult)
  | info (s : Source)
  | transaction (steps : List Outcome) (rolledBack : Option Failure)

/-- The outcome of a step. -/
inductive Outcome where
  | mk (answer : Except Stop Answer) (journal : Journal) (store : Store)

end

end Session

end Roster
