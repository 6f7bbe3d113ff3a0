import Roster.Sync.Names
import Roster.Sync.Placeholder
import Roster.Sync.Result
import Roster.Sync.Unwinding

/-!
# Synchronisation

The entry points: synchronising an identity (`Context.sync`), synchronising a local record again
(`Context.syncId`), refreshing a record from an identity (`Context.updateIdentity`), and converting
a record of the legacy mode (`Context.convertMembership`).

Failures of the store and of the provider leave an entry point as failures of the synchronisation.
-/

namespace Roster

/-- What a dynamic context takes an identity for. -/
inductive Target where
  | user
  | group
  | foreignGroup
deriving DecidableEq

/-- The word for a target. -/
def Target.name : Target → String
  | user => "user"
  | group => "group"
  | foreignGroup => "foreign_group"

namespace Context

variable (ctx : Context)

/-- The names of the groups of an identity within a number of hops. -/
def namesOf (log : Channel) (i : Identity) (depth : Int) : Sync NameSet := do
  if 0 < depth then requireKnown i
  ctx.collect log depth.toNat ∅ i.groups

/-- Keeps names on a user; a record of the legacy mode is converted. -/
def keepNames (x : Subject) (r : Record) (names : NameSet) : Sync Unit :=
  if r.isLegacy then Sync.convert x (.ok names) else Sync.setNames x (.ok names)

/-- Makes sure of the placeholders of the groups within a number of hops, if groups are dynamic. -/
def ensurePlaceholders (log : Channel) (i : Identity) (depth : Int) : Sync Unit := do
  if ctx.policy.hasDynamicGroups && 0 < depth then
    ctx.ensureGroups log (depth.toNat - 1) i.groups

/-- Represents the memberships of a user by names. A record of the legacy mode keeps its member
lists unless the policy enforces names; then it is converted here. -/
def syncNames (i : Identity) (x : Subject) (depth : Int) (log : Option Channel) : Sync Unit := do
  let log := log.getD ⟨"resolver", none⟩
  let r ← Sync.record x
  if r.isGroup then return
  if r.isLegacy && !ctx.policy.enforcesDynamic then
    let id := r.id
    Sync.log log .debug
      s!"{id} was synced before dynamic membership, using legacy membership sync"
    ctx.materialize log depth.toNat i x
  else
    let names ← ctx.namesOf log i depth
    keepNames x r names
    let (count, id) := (names.size, r.id)
    Sync.log log .debug s!"Set {count} external principal names on {id}"
    ctx.ensurePlaceholders log i depth
    if r.isLegacy then
      let _ ← ctx.unwind r (some log)

/-- Represents the memberships of a record in the way of the context. -/
def syncMembership (i : Identity) (x : Subject) (depth : Int) (log : Option Channel) : Sync Unit :=
  if ctx.dynamic then ctx.syncNames i x depth log
  else ctx.materialize (log.getD ⟨"default_sync", none⟩) depth.toNat i x

/-- Synchronises a user. -/
def syncUser (i : Identity) (x : Subject) (log : Option Channel) : Sync Unit := do
  syncProperties i x (.mapping ctx.policy.user.propertyMapping)
  ctx.syncMembership i x ctx.policy.user.nestingDepth log
  ctx.applyMembership x (inOrder ctx.policy.user.autoMembership) log
  stamp x

/-- Synchronises a user or a group, whichever the record is. -/
def syncRecord (i : Identity) (x : Subject) (isGroup : Bool) (log : Option Channel) : Sync Unit :=
  if isGroup then ctx.syncGroup i x log else ctx.syncUser i x log

/-- The outcome for a record as it now is. -/
def resultOf (x : Subject) (status : Status) : Sync SyncResult := do
  let r ← Sync.record x
  let synced := if r.lastSynced matches .null then .never else r.lastSynced
  return ⟨r.id, r.ref, r.group, synced, status⟩

/-- The outcome for an identity of another provider. -/
def foreignResult (i : Identity) : SyncResult :=
  ⟨i.id, i.ref, .bool i.isGroup, .never, .foreign⟩

/-- Whether a record is of the type of an identity, a group or not. -/
def sameType (r : Record) (i : Identity) : Bool := r.group == .bool i.isGroup

/-- Refreshes a record unless it was synchronised within its expiration time. -/
def updateIdentity (i : Identity) (x : Subject) (log : Option Channel) : Sync SyncResult := do
  let channel := log.getD ⟨"default_sync", none⟩
  let r ← Sync.record x
  let id := r.id
  requireKnown i
  if !sameType r i then throw (.differentType id)
  if !ctx.owns r.ref then
    Sync.log channel .warning s!"Local record {id} belongs to another provider"
    return ⟨id, r.ref, r.group, .never, .foreign⟩
  let expiration :=
    if r.isGroup then ctx.policy.group.expirationTime else ctx.policy.user.expirationTime
  if ← isExpired r expiration then
    ctx.syncRecord i x r.isGroup (some channel)
    resultOf x .update
  else
    Sync.log channel .debug s!"Record {id} synced recently, skipping"
    resultOf x .nop

/-- Turns a failure of the store or of the provider into one of the synchronisation. -/
def guarded {α : Type} (subject : String) (x : Sync α) : Sync α := do
  try x
  catch f => throw (if f.isA .store || f.isA .lookup then .syncFailed subject f else f)

/-- The channel of one synchronisation. -/
def channelFor (source : String) (id : Value) : Sync Channel := do
  return .ofRun source (← get).run id

/-- Creates the record of an identity and synchronises it. -/
def addIdentity (i : Identity) (log : Channel) : Sync SyncResult := do
  let x ← Sync.create (ctx.newRecord i i.isGroup)
  ctx.syncRecord i x i.isGroup (some log)
  let (kind, id) := (i.kind.name, i.id)
  Sync.log log .info s!"Added {kind} {id}"
  resultOf x .add

/-- Synchronises an identity with its record, which is created when there is none. -/
def syncStandard (i : Identity) : Sync SyncResult := do
  if i.kind matches .unknown _ then throw .invalidKind
  if !ctx.owns i.ref then return foreignResult i
  let log ← channelFor "default_sync" i.id
  let (kind, id) := (i.kind.name, i.id)
  guarded s!"{kind} {id}" do
    match ← Sync.lookUp i.id with
    | none => ctx.addIdentity i log
    | some (x, _) => ctx.updateIdentity i x (some log)

/-- What a dynamic context takes an identity for. -/
def classify (i : Identity) : Except Failure Target :=
  match i.kind with
  | .unknown _ => .error .invalidKind
  | .user => .ok .user
  | .group => .ok (if ctx.owns i.ref then .group else .foreignGroup)

/-- Synchronises a group of the provider: one that exists is refreshed, a new one is created only
when groups are dynamic. -/
def syncExternalGroup (i : Identity) (log : Option Channel) : Sync SyncResult := do
  let log := log.getD ⟨"context", none⟩
  let id := i.id
  match ← Sync.lookUp id with
  | some (x, _) => ctx.updateIdentity i x (some log)
  | none =>
    let shown ← Sync.shown i.ref
    if ctx.policy.hasDynamicGroups then
      Sync.log log .debug s!"ExternalGroup {shown}: synchronizing as dynamic group {id}"
      requireKnown i
      let x ← Sync.create (ctx.newRecord i true)
      Sync.audit s!"Group created: id={id} ref={shown}"
      ctx.syncGroup i x (some log)
      resultOf x .add
    else
      Sync.log log .debug s!"ExternalGroup {shown}: not synchronized as local group"
      return ⟨i.id, i.ref, .bool true, .never, .nop⟩

/-- Synchronises an identity in a dynamic context. -/
def syncDynamic (i : Identity) : Sync SyncResult := do
  match ctx.classify i with
  | .error f => throw f
  | .ok .user => ctx.syncStandard i
  | .ok .foreignGroup => return foreignResult i
  | .ok .group =>
    let log ← channelFor "context" i.id
    let id := i.id
    guarded s!"group {id}" (ctx.syncExternalGroup i (some log))

/-- Synchronises an identity. -/
def sync (i : Identity) : Sync SyncResult :=
  if ctx.dynamic then ctx.syncDynamic i else ctx.syncStandard i

/-- Synchronises the record under an id with the identity that its reference leads to; the record
goes when the identity is gone. -/
def refresh (id : Value) (x : Subject) (r : Record) (ref : Ref) (log : Channel) :
    Sync SyncResult := do
  match ← ctx.resolve ref with
  | none =>
    Sync.remove id
    let words ← Sync.shown (some ref)
    Sync.log log .info s!"External identity {words} no longer exists, removed local record"
    return ⟨id, r.ref, r.group, .never, .delete⟩
  | some i =>
    if !sameType r i then throw (.typesDiffer id (← Sync.shown (some ref)))
    ctx.syncRecord i x r.isGroup (some log)
    resultOf x .update

/-- Synchronises the record with an id again. -/
def syncId (id : Value) : Sync SyncResult := do
  match ← Sync.lookUp id with
  | none =>
    Sync.log ⟨"default_sync", none⟩ .debug s!"No local record {id}, nothing to sync"
    return ⟨id, none, .bool false, .never, .nop⟩
  | some (x, r) =>
    match r.ref with
    | none => return ⟨id, r.ref, r.group, .never, .foreign⟩
    | some ref =>
      if !ctx.policy.owns ref then return ⟨id, r.ref, r.group, .never, .foreign⟩
      let log ← channelFor "default_sync" id
      guarded id.display (ctx.refresh id x r ref log)

/-- Converts a user of the legacy mode; the answer says whether there was anything to convert. -/
def convertMembership (x : Subject) : Sync Bool := do
  let r ← Sync.record x
  if r.isGroup || !r.isLegacy then return false
  let log ← channelFor "context" r.id
  let names ← ctx.unwind r (some log)
  Sync.convert x (.ok names)
  let (id, count) := (r.id, names.size)
  Sync.audit s!"Converted to dynamic membership: id={id} principals={count}"
  return true

/-- The context that a policy asks for; the provider has to be the configured one. -/
def create (policy : Policy) (provider : Provider) : Except Failure Context :=
  if provider.name == policy.provider then .ok ⟨policy, provider, policy.user.dynamicMembership⟩
  else .error (.providerMismatch provider.name policy.provider)

end Context

end Roster
