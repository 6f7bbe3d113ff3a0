import Roster.Session.Step

/-!
# Sessions

A session performs steps one after the other. A step that fails or is refused keeps what it changed
and does not end the session, except inside a transaction, where a failure (not a refusal) aborts
and the store goes back to what it was. No step takes time: the waits between attempts to connect
are skipped.

A step may show a record, which fails where the record has lost its form. What it shows is settled
at the end of the session: the properties keep up with the record's until these are replaced as a
whole.

A step may also keep the record it obtained under a name. The session keeps track of such records:
while the store holds the very record it is a subject of the store; once it has left the store, or
the store was replaced, it lives on by itself (`Session.settle`, `Session.detachAll`).
-/

namespace Roster

/-- The state of a session. -/
structure Session where
  world : World := {}
  source : Source
  choice : Session.ContextChoice := .byPolicy
  /-- The policy and the way of the context, while there is one. -/
  ruling : Option (Policy × Bool) := none
  /-- The records that were kept, or none where there was no record to keep. -/
  held : Assoc Key (Option Subject) := []

namespace Session

/-- An action of a session: it may stop, and leaves a session either way. -/
abbrev Act (α : Type) := ExceptT Stop (StateM Session) α

namespace Act

variable {α : Type}

/-- Stops with a failure. -/
def fail (f : Failure) : Act α := throw (.failed f)

/-- Performs a step of a synchronisation on the world of the session. -/
def sync (x : Sync α) : Act α := do
  let s ← get
  let (outcome, world) := x s.world
  set { s with world }
  match outcome with
  | .ok a => return a
  | .error f => fail f

/-- Takes a reply in. -/
def reply (r : Reply α) : Act α := sync (Sync.reply r)

/-- Takes a result in. -/
def result (r : Except Failure α) : Act α :=
  match r with
  | .ok a => return a
  | .error f => fail f

end Act

/-! ## Records that were kept or shown -/

/-- The subjects that are kept, or followed by what was shown. -/
def subjects (s : Session) : List Subject :=
  s.held.filterMap (·.2) ++ s.world.shown.filterMap (·.following)

/-- Makes the record under a key, as it was in the given store, one that has left the store. -/
def detach (before : Store) (s : Session) (k : Key) : Session :=
  match before.find? k with
  | none => s
  | some r =>
    let n := s.world.detached.length
    let moved (x : Option Subject) : Option Subject :=
      if x = some (.stored k) then some (.detached n) else x
    { s with
      world := { s.world with
        detached := s.world.detached ++ [(n, r)]
        shown := s.world.shown.map fun v => { v with following := moved v.following } }
      held := s.held.map fun (name, x) => (name, moved x) }

/-- The keys of the records of the store that are kept or followed. -/
def storedKeys (s : Session) : List Key :=
  (s.subjects.filterMap fun x => match x with
    | .stored k => some k
    | .detached _ => none).eraseDups

/-- Detaches the records that have left the store since. -/
def settle (before : Store) (s : Session) : Session :=
  (s.storedKeys.filter fun k => !s.world.store.has k).foldl (detach before) s

/-- Detaches all records, after the store was replaced. -/
def detachAll (before : Store) (s : Session) : Session := s.storedKeys.foldl (detach before) s

/-- Shows a record. -/
def sight (x : Subject) : Act Sight := do
  let r ← Act.sync (Sync.record x)
  let names ← Act.result (r.names.mapM Store.namesInOrder)
  let some mode := r.mode | Act.fail .malformed
  let s ← get
  let place := s.world.shown.length
  let shown := s.world.shown ++ [{ following := some x, properties := r.properties : Showing }]
  set { s with world := { s.world with shown } }
  return { record := r, mode, names, place }

/-- Keeps a subject under a name. -/
def keep (name : Option Value) (x : Option Subject) : Act Unit := do
  let some name := name | return
  let k ← Act.result name.toKey
  modify fun s => { s with held := s.held.set k x }

/-- The subject that an argument names. -/
def subject (arg : RecordArg) : Act Subject := do
  match arg with
  | .id id =>
    match ← Act.sync (Sync.lookUp id) with
    | some (x, _) => return x
    | none => throw (.refused .noRecord)
  | .held name =>
    match (← get).held.lookup (← Act.result name.toKey) with
    | some (some x) => return x
    | _ => throw (.refused .noRecord)

/-- The record that an argument names. -/
def record (arg : RecordArg) : Act Record := do Act.sync (Sync.record (← subject arg))

/-- The identity that an argument names. -/
def identity (arg : IdentityArg) : Act Identity := do
  let p := (← get).source.provider
  let found ← match arg with
    | .user id => Act.reply (p.user id)
    | .group name => Act.reply (p.group name)
    | .ref (some r) => Act.reply (p.lookup r)
    | .ref none => pure none
    | .given i => some <$> Act.result i
  match found with
  | some i => return i
  | none => throw (.refused .noIdentity)

/-- The reference that an argument names. -/
def reference : RefArg → Act (Option Ref)
  | .ref r => return r
  | .record r => do return (← record r).ref
  | .identity i => do return (← identity i).ref

/-! ## Contexts -/

/-- The context for a policy. -/
def contextFor (choice : ContextChoice) (policy : Policy) (p : Provider) :
    Except Failure Context :=
  match choice with
  | .byPolicy => Context.create policy p
  | .standard => .ok ⟨policy, p, false⟩
  | .dynamic => .ok ⟨policy, p, true⟩

/-- Builds the context for a `sync` section. -/
def choosePolicy (part : Value) : Act Bool := do
  let policy ← Act.result (Policy.ofSection part)
  let s ← get
  let ctx ← Act.result (contextFor s.choice policy s.source.provider)
  set { s with ruling := some (policy, ctx.dynamic) }
  return ctx.dynamic

/-- The context of the session. -/
def context : Act Context := do
  let s ← get
  match s.ruling with
  | some (policy, dynamic) => return ⟨policy, s.source.provider, dynamic⟩
  | none => Act.fail .malformed

/-- The context of the session, which has to be dynamic. -/
def dynamicContext : Act Context := do
  let s ← get
  match s.ruling with
  | some (policy, true) => return ⟨policy, s.source.provider, true⟩
  | _ => throw (.refused .notDynamic)

/-- The kind of a context in answers. -/
def contextName (dynamic : Bool) : String :=
  if dynamic then "SyncOrchestrator" else "DefaultSyncContext"

/-- The kind of the context of the session in answers. -/
def currentName (s : Session) : String :=
  match s.ruling with
  | some (_, dynamic) => contextName dynamic
  | none => "NoneType"

/-! ## Providers -/

/-- The memory that the provider is held in. -/
def memory : Act Memory := do
  match (← get).source with
  | .memory m => return m
  | .directory _ => Act.fail .malformed

/-- The directory that the provider is. -/
def directory : Act Directory := do
  match (← get).source with
  | .directory d => return d
  | .memory _ => Act.fail .malformed

/-- Changes the provider. -/
def setSource (source : Source) : Act Unit := modify fun s => { s with source }

/-- Says how unbinding will end, for which there has to be a connection. -/
def planUnbinding (unbinding : LinkOutcome) : Act Unit := do
  let d ← directory
  let some l := d.link | Act.fail .malformed
  setSource (.directory { d with link := some { l with unbinding } })

/-- Closes the provider; the answer says whether it is a directory that is now without a
connection. -/
def close : Act Bool := do
  match (← get).source with
  | .memory _ => return false
  | .directory d =>
    let d ← Act.reply d.close
    setSource (.directory d)
    return d.link.isNone

/-! ## Performing steps -/

/-- How many levels a walk over groups has for a depth, and the context it takes place in. A walk
whose depth is no whole number comes to no level that is a single hop from the end, so that names
are not mapped directly there. -/
def walk (ctx : Context) (depth : Value) : Except Failure (Context × Int) :=
  match depth.number? with
  | none => .error .malformed
  | some n =>
    let hops := n.toRat
    let within := if hops.den = 1 then ctx
      else { ctx with provider := { ctx.provider with direct := false } }
    .ok (within, hops.ceil)

/-- Makes placeholders of groups within a depth, which counts the first level. What is no depth
shows once there may be a second level. -/
def ensureGroups (ctx : Context) (depth : Value) (refs : List (Option Ref)) : Sync Unit :=
  let log : Channel := ⟨"materializer", none⟩
  match walk ctx depth with
  | .ok (_, levels) => ctx.ensureGroups log (levels - 1).toNat refs
  | .error f => refs.forM (ctx.ensureGroup log fun _ => throw f)

/-- Represents memberships within a depth. What is no depth shows once groups are looked at. -/
def representMembership (ctx : Context) (i : Identity) (x : Subject) (depth : Value) :
    Sync Unit := do
  match walk ctx depth with
  | .ok (ctx, levels) => ctx.syncMembership i x levels none
  | .error f =>
    let r ← Sync.record x
    if ctx.dynamic && (r.isGroup || r.isLegacy && !ctx.policy.enforcesDynamic) then
      ctx.syncMembership i x 0 none
    if !(ctx.dynamic && r.isGroup) then throw f

/-- Replaces the store; all kept records have left it then. -/
def replaceStore (x : Sync Unit) : Act Answer := do
  let before := (← get).world.store
  Act.sync x
  modify (detachAll before)
  return .none

/-- Saves the store to a file and loads it again. -/
def reloadStore (path : Value) : Sync Unit := do
  let (files, failure) ← Sync.save {} path
  if let some f := failure then throw f
  Sync.load path (← Sync.result (Sync.snapshotAt files path))

/-- The channel that reports on member lists kept in a dynamic context. -/
def legacyChannel : Channel := ⟨"context", none⟩

/-- The record that a step wants created. -/
def newRecord (r : NewRecord) : Except Failure Record := do
  let mode ← match r.mode with
    | none => pure .dynamic
    | some v => Store.modeOf v
  return {
    id := r.id, group := .bool r.isGroup, principalName := r.principalName, ref := r.ref, mode }

/-- Assigns to a field of a record, whatever the value is. -/
def assign (x : Subject) : Assignment → Sync Unit
  | .id v => Sync.update x fun r => { r with id := v }
  | .group v => Sync.update x fun r => { r with group := v }
  | .principalName v => Sync.update x fun r => { r with principalName := v }
  | .ref ref => Sync.update x fun r => { r with ref }
  | .mode => Sync.update x fun r => { r with mode := none }
  | .lastSynced v => Sync.update x fun r => { r with lastSynced := v }
  | .names .null => Sync.update x fun r => { r with names := none }
  | .names v => Sync.update x fun r => { r with names := some (.value v) }
  | .properties v => modify fun w => w.replaceProperties x v
  | .refused f => throw f
  | .other => return

/-- Whether the store holds the very record that a subject is under the record's id. -/
def isStored (x : Subject) (r : Record) : Except Failure Bool := do
  let k ← r.id.toKey
  return decide (x = .stored k)

/-- Performs a step other than a transaction. -/
def perform : Step → Act Answer
  | .transaction _ _ => Act.fail .malformed
  | .invalid needsDynamic f => do
    if needsDynamic then
      let _ ← dynamicContext
    Act.fail f
  | .setClock t => do
    modify fun s => { s with world := { s.world with clock := t } }
    return .plain t
  | .advanceClock t => do
    let now ← Act.result ((← get).world.clock.plus t)
    modify fun s => { s with world := { s.world with clock := now } }
    return .plain now
  | .plan faults => do
    modify fun s => { s with world := { s.world with faults, lookups := 0, turn := 0 } }
    return .none
  | .policy .null => do return .plain (.text (currentName (← get)))
  | .policy part => do return .plain (.text (contextName (← choosePolicy part)))
  | .create r name => do
    let x ← Act.sync (Sync.create (← Act.result (newRecord r)))
    keep name (some x)
    return .record (some (← sight x))
  | .get id name => do
    let x := (← Act.sync (Sync.lookUp id)).map (·.1)
    keep name x
    return .record (← x.mapM sight)
  | .look arg => do
    let x ← subject arg
    let v ← sight x
    return .look v (← Act.result (isStored x v.record))
  | .assign arg changes => do
    let x ← subject arg
    Act.sync (changes.forM (assign x))
    return .record (some (← sight x))
  | .remove id => do
    Act.sync (Sync.remove id)
    return .none
  | .records => do return .ids (← get).world.store.ids
  | .memberOf arg => do
    let r ← record arg
    return .ids ((← Act.result ((← get).world.store.memberOf r.id)).map (·.id))
  | .members arg => do
    let g ← record arg
    return .ids ((← Act.result ((← get).world.store.membersOf g)).map (·.id))
  | .addMember group arg => do
    let g ← record group
    return .flag (← Act.sync (Sync.addMember g (← record arg).id))
  | .removeMember group arg => do
    let g ← record group
    return .flag (← Act.sync (Sync.removeMember g (← record arg).id))
  | .names arg => do
    return .names (← Act.result ((← record arg).names.mapM Store.namesInOrder))
  | .setNames arg names => do
    Act.sync (Sync.setNames (← subject arg) names.toNames)
    return .none
  | .convert arg names => do
    Act.sync (Sync.convert (← subject arg) names.toNames)
    return .none
  | .restore snapshot => replaceStore (Sync.restore snapshot)
  | .reload path => replaceStore (reloadStore path)
  | .load content => replaceStore (Sync.load (.text "store.yaml") content)
  | .addIdentity kind id groups principalName properties => do
    let m ← memory
    let refs := groups.map fun g => match g with
      | .inl id => some (m.ref id)
      | .inr r => some r
    let properties ← Act.result (properties.orElse (.mapping [])).toMapping
    let i := m.identity kind id refs principalName properties
    setSource (.memory (← Act.result (m.add i)))
    return .identity (some i)
  | .removeIdentity id => do
    setSource (.memory (← Act.result ((← memory).remove id)))
    return .none
  | .resolve (some r) => do
    return .identity (← Act.sync ((← get).source.provider.fetch r))
  | .resolve none => do
    Act.sync (Sync.call (.resolve none))
    modify fun s => { s with world := { s.world with lookups := s.world.lookups + 1 } }
    Act.fail .malformed
  | .direct (some r) => do
    return .plain (← Act.sync ((← get).source.provider.principalName r))
  | .direct none => do
    Act.sync (Sync.call (.direct none))
    Act.fail .malformed
  | .owns r => do return .flag (r.any (← get).source.provider.owns)
  | .user id => do return .identity (← Act.reply ((← get).source.provider.user id))
  | .group name => do return .identity (← Act.reply ((← get).source.provider.group name))
  | .users => do
    let found ← (← get).source.provider.users.mapM fun entry => Act.reply entry
    return .identities (found.filterMap id)
  | .info => do return .info (← get).source
  | .connect policy script => do
    setSource (.directory (← Act.reply ((← directory).connect Sleep.skipped script policy)))
    return .flag true
  | .close unbinding => do
    if let some unbinding := unbinding then planUnbinding unbinding
    return .flag (← close)
  | .use => do
    let _ ← directory
    return .flag (← close)
  | .sync arg => do
    let ctx ← context
    return .result (← Act.sync (ctx.sync (← identity arg)))
  | .syncId id => do return .result (← Act.sync ((← context).syncId id))
  | .update arg recordArg => do
    let ctx ← context
    let i ← identity arg
    let x ← subject recordArg
    return .result (← Act.sync (ctx.updateIdentity i x none))
  | .syncExternalGroup arg => do
    let ctx ← dynamicContext
    let i ← identity arg
    return .result (← Act.sync (ctx.syncExternalGroup i none))
  | .convertMembership arg => do
    let ctx ← dynamicContext
    return .flag (← Act.sync (ctx.convertMembership (← subject arg)))
  | .classify arg => do
    let ctx ← dynamicContext
    let i ← identity arg
    return .plain (.text (← Act.result (ctx.classify i)).name)
  | .collect refs depth names => do
    let ctx ← dynamicContext
    let names ← Act.result names.toNames
    let (ctx, levels) ← Act.result (walk ctx depth)
    let names ← Act.sync (ctx.collect ⟨"resolver", none⟩ levels.toNat names refs)
    return .collected (← Act.result (Store.namesInOrder (.set names)))
  | .ensure refs depth => do
    let ctx ← dynamicContext
    Act.sync (ensureGroups ctx depth refs)
    return .none
  | .unwind arg => do
    let ctx ← dynamicContext
    let names ← Act.sync (ctx.unwind (← record arg) none)
    return .names (some (← Act.result (Store.namesInOrder (.set names))))
  | .membership arg recordArg depth => do
    let ctx ← context
    let i ← identity arg
    let x ← subject recordArg
    Act.sync (representMembership ctx i x depth)
    return .none
  | .legacyMembership arg recordArg depth => do
    let ctx ← dynamicContext
    let i ← identity arg
    let x ← subject recordArg
    let (_, levels) ← Act.result (walk ctx depth)
    Act.sync (ctx.materialize legacyChannel levels.toNat i x)
    return .none
  | .joinGroups arg groups => do
    let ctx ← context
    let x ← subject arg
    Act.sync (ctx.applyMembership x (groups.toItems.bind Value.ascending) none)
    return .none
  | .properties arg recordArg mapping => do
    let _ ← context
    let i ← identity arg
    let x ← subject recordArg
    Act.sync (Context.syncProperties i x mapping)
    return .none
  | .externalGroup r => do return .identity (← Act.sync ((← context).externalGroup r none))
  | .isOwn arg => do
    let r ← reference arg
    return .flag ((← context).owns r)
  | .isExpired arg expiration => do
    let _ ← context
    let r ← record arg
    return .flag (← Act.sync (Context.isExpired r expiration))

/-- The session with an empty journal. -/
def freshJournal (s : Session) : Session := { s with world := { s.world with notes := [] } }

/-- The failure in an outcome. -/
def Outcome.failure? : Outcome → Option Failure
  | .mk (.error (.failed f)) _ _ => some f
  | _ => none

/-- The outcome of an answer in the session it was given in. -/
def outcomeOf (answer : Except Stop Answer) (s : Session) : Outcome :=
  .mk answer s.world.journal s.world.store

/-- Performs a step other than a transaction and settles the kept records. -/
def performOne (step : Step) (s : Session) : Outcome × Session :=
  let s := s.freshJournal
  let (answer, s') := (perform step).run.run s
  let s' := s'.settle s.world.store
  (outcomeOf answer s', s')

/-- Puts the store back to what it was before a transaction, unless it was replaced by another one
in the meantime. -/
def abort (generation : Nat) (snapshot : Value) (f : Failure) (s : Session) : Failure × Session :=
  match Sync.rollBack generation snapshot s.world with
  | (.ok (), world) =>
    let s' := { s with world }
    (f, if s.world.generation = generation then s'.detachAll s.world.store else s')
  | (.error g, world) => (g, { s with world })

mutual

/-- Performs a step. -/
def run : Step → Session → Outcome × Session
  | .transaction steps aborted, s =>
    let s := s.freshJournal
    match s.world.store.snapshot with
    | .error f => (outcomeOf (.error (.failed f)) s, s)
    | .ok snapshot =>
      let (outcomes, failure, s') := runUntilFailure steps s
      let s' := s'.freshJournal
      match failure.or (aborted.map fun kind => .brought kind (.text "aborted")) with
      | none => (outcomeOf (.ok (.transaction outcomes none)) s', s')
      | some f =>
        let (f, s') := abort s.world.generation snapshot f s'
        (outcomeOf (.ok (.transaction outcomes (some f))) s', s')
  | step, s => performOne step s

/-- Performs steps up to the first failure. It is a failure too if the store cannot be written after
a step, which then has no outcome. -/
def runUntilFailure : List Step → Session → List Outcome × Option Failure × Session
  | [], s => ([], none, s)
  | step :: rest, s =>
    let (outcome, s') := run step s
    match s'.world.store.snapshot, outcome.failure? with
    | .error f, _ => ([], some f, s')
    | .ok _, some f => ([outcome], some f, s')
    | .ok _, none =>
      let (outcomes, failure, s'') := runUntilFailure rest s'
      (outcome :: outcomes, failure, s'')

end

/-- Performs steps one after the other. -/
def runEach : List Step → Session → List Outcome × Session
  | [], s => ([], s)
  | step :: rest, s =>
    let (outcome, s') := run step s
    let (outcomes, s'') := runEach rest s'
    (outcome :: outcomes, s'')

/-- What was shown of a record, with the properties that it shows in the end. -/
def Sight.settled (shown : List Showing) (v : Sight) : Sight :=
  match shown[v.place]? with
  | some shown => { v with record := { v.record with properties := shown.properties } }
  | none => v

mutual

/-- An answer with its properties as they are in the end. -/
def Answer.settled (shown : List Showing) : Answer → Answer
  | .record r => .record (r.map (Sight.settled shown))
  | .look r stored => .look (r.settled shown) stored
  | .transaction steps rolledBack => .transaction (Outcome.settledAll shown steps) rolledBack
  | a => a

/-- An outcome with its properties as they are in the end. -/
def Outcome.settled (shown : List Showing) : Outcome → Outcome
  | .mk (.ok a) journal store => .mk (.ok (a.settled shown)) journal store
  | o => o

/-- Outcomes with their properties as they are in the end. -/
def Outcome.settledAll (shown : List Showing) : List Outcome → List Outcome
  | [] => []
  | o :: rest => o.settled shown :: Outcome.settledAll shown rest

end

/-- The outcomes of a whole session. -/
def outcomes (steps : List Step) (s : Session) : List Outcome :=
  let (found, s') := runEach steps s
  Outcome.settledAll s'.world.shown found

/-! ## Starting a session -/

/-- What a session starts from. -/
structure Setup where
  source : Reply Source
  store : Value
  policy : Option Value
  choice : ContextChoice
  clock : Value
  faults : Faults

/-- Builds the parts of a session; the answer says which context there is. -/
def start (setup : Setup) : Except Failure (Option String × Session) := do
  let source ← setup.source.outcome
  let s : Session := {
    source
    choice := setup.choice
    world := { clock := setup.clock, notes := [setup.source.journal] } }
  let building : Act (Option String) := do
    Act.sync (Sync.restore setup.store)
    modify fun s => { s with world := { s.world with faults := setup.faults } }
    match setup.policy with
    | none => return none
    | some part => return some (contextName (← choosePolicy part))
  match building.run.run s with
  | (.ok name, s) => return (name, s)
  | (.error (.failed f), _) => throw f
  | (.error (.refused _), _) => throw .malformed

end Session

end Roster
