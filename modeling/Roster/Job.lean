import Roster.Config
import Roster.Job.Tally
import Roster.Source
import Roster.Sync
import Roster.Sync.Persistence

/-!
# Jobs

A job loads a configuration, connects to the provider, loads the store, performs one task on it and
saves it again. Every identity is synchronised as a transaction of the store: one that fails leaves
no trace there, is counted, and the job goes on with the next one. Other failures end the job
before the store is saved.

* `Job.run`: a whole job, with the exit code that tells how it went.
* `Job.health`: whether configuration, provider and store can be used.
-/

namespace Roster

namespace Job

/-- What a job finds around it. -/
structure Surroundings where
  files : Files := {}
  environment : Environment := []
  /-- What the directory holds, for a provider that is one. -/
  content : Content := {}
  /-- What the other side does while the provider is connected to. -/
  script : Script := {}
  /-- How the waits between attempts to connect are slept. -/
  sleep : Sleep := Sleep.skipped
  clock : Value := .int 1000
  faults : Faults := {}

/-- What a job does with the store. -/
inductive Task where
  /-- Synchronises the users with the given ids, or all users if nothing is given. -/
  | users (ids : Value)
  /-- Synchronises the groups with the given names. -/
  | groups (names : Value)
  /-- Synchronises all records again. -/
  | resync
  /-- Converts all users of the legacy mode. -/
  | convert
  /-- A task nobody knows. -/
  | other (name : Value)

/-- The word for a task. -/
def Task.name : Task → String
  | users _ => "users"
  | groups _ => "groups"
  | resync => "resync"
  | convert => "convert"
  | other name => name.display

/-- The state of a job. -/
structure State where
  world : World
  files : Files
  source : Option Source := none
  tally : Tally := {}
  finished : Bool := false

end Job

/-- An action of a job: it may fail, and leaves a state either way. -/
abbrev Job (α : Type) := ExceptT Failure (StateM Job.State) α

namespace Job

variable {α : Type}

/-- Where log lines of this part come from. -/
def channel : Channel := ⟨"main", none⟩

/-- Performs an action in a state. -/
def execute (x : Job α) (s : State) : Except Failure α × State := StateT.run (ExceptT.run x) s

/-- An action whose failure is part of the value. -/
def outcome (x : Job α) : Job (Except Failure α) := do
  try return .ok (← x)
  catch f => return .error f

/-- Performs a step of a synchronisation; its failure is part of the value. -/
def attempt (x : Sync α) : Job (Except Failure α) := do
  let s ← get
  let (outcome, world) := x s.world
  set { s with world }
  return outcome

/-- Performs a step of a synchronisation. -/
def sync (x : Sync α) : Job α := do
  match ← attempt x with
  | .ok a => return a
  | .error f => throw f

/-- Takes a reply in. -/
def reply (r : Reply α) : Job α := sync (Sync.reply r)

/-- Takes a result in. -/
def result (r : Except Failure α) : Job α :=
  match r with
  | .ok a => return a
  | .error f => throw f

/-- Writes a log line. -/
def log (level : Level) (text : String) : Job Unit := sync (Sync.log channel level text)

/-- Counts something. -/
def tally (f : Tally → Tally) : Job Unit := modify fun s => { s with tally := f s.tally }

/-! ## Preparing -/

/-- Loads the configuration; whatever goes wrong is a failure of the configuration. -/
def loadConfig (around : Surroundings) (path : Value) : Job Fields := do
  let loading := Config.load around.files path around.environment
  match ← attempt (Sync.reply loading) with
  | .ok config => return config
  | .error f => throw (if f.isA .configuration then f else .configFailed)

/-- The path of the store. -/
def storePath (config : Fields) : Value :=
  Config.fieldOr (Config.sectionOf config "store") "path" .null

/-- How often and how long connecting is tried again. -/
def retryPolicy (config : Fields) : Except Failure (RetryPolicy Value) :=
  let fields := Config.sectionOf config "error_handling"
  let standard := RetryPolicy.standard
  RetryPolicy.ofValues (Config.fieldOr fields "max_retries" (.int standard.maxRetries))
    (Config.fieldOr fields "retry_wait_seconds" standard.waitSeconds) standard.backoff

/-- The provider that a configuration describes, connected. -/
def openSource (around : Surroundings) (config : Fields) : Reply Source := do
  let name := Config.fieldOr (Config.sectionOf config "sync") "provider" .null
  match Config.fieldOr config "provider_type" (.text "ldap") with
  | .text "memory" =>
    return .memory (← Memory.ofConfig name (Config.fieldOr config "memory" (.mapping [])))
  | _ =>
    let some ldap := config.lookup (.text "ldap") | throw (.missingKey "ldap")
    let settings ← Reply.ofResult (Settings.ofConfig ldap)
    let d : Directory := { name, settings, content := around.content }
    return .directory (← d.connect around.sleep around.script (retryPolicy config))

/-- Connects to the provider. -/
def connectProvider (around : Surroundings) (config : Fields) : Job Source := do
  let source ← reply (openSource around config)
  modify fun s => { s with source := some source }
  return source

/-- Loads the store from its file. -/
def loadStore (config : Fields) : Job Unit := do
  let path := storePath config
  let content ← result (Sync.snapshotAt (← get).files path)
  sync (Sync.load path content)

/-- Saves the store to its file. -/
def saveStore (config : Fields) : Job Unit := do
  let (files, failure) ← sync (Sync.save (← get).files (storePath config))
  modify fun s => { s with files }
  if let some f := failure then throw f

/-- Closes the provider. -/
def cleanUp : Job Unit := do
  if let some (.directory d) := (← get).source then
    let closed ← reply d.close
    modify fun s => { s with source := some (.directory closed) }

/-! ## Tasks -/

/-- Counts the failure of an identity and goes on. -/
def failIdentity (id : Value) (f : Failure) : Job Unit := do
  let text := s!"Failed to sync {id}: " ++ f.text
  tally fun t => t.fail text
  log .error text

/-- Whether a failure concerns one identity only, so that the job goes on. -/
def isOfIdentity (f : Failure) : Bool := f.isA .sync || f.isA .lookup || f.isA .store

/-- Synchronises one identity as a transaction and counts the outcome. -/
def recordOutcome (id : Value) (x : Sync SyncResult) : Job Unit := do
  match ← attempt (Sync.transaction x) with
  | .ok r =>
    tally fun t => t.add r.status
    let status := r.status.name
    log .info s!"{id}: {status}"
  | .error f => if isOfIdentity f then failIdentity id f else throw f

/-- Synchronises a user that is looked up first. -/
def syncUser (ctx : Context) (id : Value) : Sync SyncResult := do
  match ← Sync.reply (ctx.provider.user id) with
  | some i => ctx.sync i
  | none => throw (.userNotFound id)

/-- Synchronises a group that is looked up first. -/
def syncGroup (ctx : Context) (name : Value) : Sync SyncResult := do
  match ← Sync.reply (ctx.provider.group name) with
  | some i => ctx.sync i
  | none => throw (.groupNotFound name)

/-- Synchronises one entry of the listing of all users. -/
def syncListed (ctx : Context) (entry : Reply (Option Identity)) : Job Unit := do
  if let some i ← reply entry then recordOutcome i.id (ctx.sync i)

/-- Synchronises a record again, unless it was removed on behalf of another one. -/
def resyncRecord (ctx : Context) (id : Value) : Job Unit := do
  if (← sync (Sync.lookUp id)).isSome then recordOutcome id (ctx.syncId id)

/-- Converts the user with an id, if there is one; the answer says whether it was converted, and
there is none for groups and for records that are gone. -/
def convertUser (ctx : Context) (id : Value) : Sync (Option Bool) := do
  match ← Sync.lookUp id with
  | none => return none
  | some (x, r) => if r.isGroup then return none else return some (← ctx.convertMembership x)

/-- Converts one record as a transaction and counts the outcome. -/
def convertRecord (ctx : Context) (id : Value) : Job Unit := do
  match ← attempt (Sync.transaction (convertUser ctx id)) with
  | .ok none => return
  | .ok (some converted) =>
    if converted then log .info s!"Converted {id} to dynamic membership"
    tally fun t => t.addConversion converted
  | .error f => if f.isA .store then failIdentity id f else throw f

/-- Performs a task. -/
def perform (ctx : Context) (task : Task) : Job Unit := do
  match task with
  | .users .null => ctx.provider.users.forM (syncListed ctx)
  | .users ids => (← result ids.toItems).forM fun id => recordOutcome id (syncUser ctx id)
  | .groups names =>
    (← result names.toItems).forM fun name => recordOutcome name (syncGroup ctx name)
  | .resync => (← get).world.store.ids.forM (resyncRecord ctx)
  | .convert =>
    if !ctx.dynamic then throw .conversionDisabled
    (← get).world.store.ids.forM (convertRecord ctx)
  | .other name => throw (.unknownJob name)

/-- Logs what was done. -/
def summarize : Job Unit := do
  let t := (← get).tally
  let (processed, failed, converted) := (t.processed, t.failed, t.converted)
  log .info "=== Sync Summary ==="
  log .info s!"Processed: {processed}, failed: {failed}, converted: {converted}"
  log .info ("Outcomes: " ++ t.outcomesText)

/-! ## Whole jobs -/

/-- The stages of a job; the answer is its exit code. -/
def stages (around : Surroundings) (path : Value) (task : Task) : Job Nat := do
  let config ← loadConfig around path
  let name := task.name
  log .info s!"Starting Identity Sync job: mode={name}"
  let source ← connectProvider around config
  loadStore config
  let policy ← result (Policy.ofConfig (.mapping config))
  let ctx ← result (Context.create policy source.provider)
  perform ctx task
  saveStore config
  modify fun s => { s with finished := true }
  summarize
  let failed := (← get).tally.failed
  if failed = 0 then
    log .info "Sync completed successfully"
    return 0
  else
    log .warning s!"Sync completed with {failed} failures"
    return 1

/-- The exit code of a job that a failure ended. -/
def explain (f : Failure) : Job Nat := do
  if f.isA .configuration then
    log .error ("Configuration error: " ++ f.text)
    return 2
  else if f.isA .connection then
    log .error ("Provider connection error: " ++ f.text)
    return 3
  else
    log .error ("Unexpected error: " ++ f.kindAndMessage)
    return 4

/-- A job with its failures explained and its provider closed. -/
def whole (around : Surroundings) (path : Value) (task : Task) : Job Nat := do
  let code ← try stages around path task catch f => explain f
  cleanUp
  return code

/-- The state in which a job begins. -/
def start (around : Surroundings) : State where
  world := { clock := around.clock, faults := around.faults }
  files := around.files

/-- Runs a job; the answer is its exit code and the state it leaves. -/
def run (around : Surroundings) (path : Value) (task : Task) : Nat × State :=
  match execute (whole around path task) (start around) with
  | (.ok code, s) => (code, s)
  | (.error _, s) => (4, s)

/-! ## Health -/

/-- A check of whether something can be used. -/
structure Check where
  name : String
  passed : Bool
  message : String

/-- Runs a check: its message, or what is wrong. -/
def check (name : String) (x : Job String) : Job Check := do
  match ← outcome x with
  | .ok message => return ⟨name, true, message⟩
  | .error f => return ⟨name, false, f.kindAndMessage⟩

/-- Checks that the configuration can be loaded and gives a policy. -/
def checkConfig (around : Surroundings) (path : Value) : Job (Fields × String) := do
  let config ← loadConfig around path
  let policy ← result (Policy.ofConfig (.mapping config))
  return (config, "Configuration valid for provider " ++ policy.provider.display)

/-- Checks that the provider can be connected to. -/
def checkProvider (around : Surroundings) (config : Fields) : Job String := do
  let name := (← connectProvider around config).name
  return s!"Provider {name} reachable"

/-- Checks that the store can be loaded. -/
def checkStore (config : Fields) : Job String := do
  loadStore config
  let path := storePath config
  return s!"Store snapshot {path} readable"

/-- All checks; without a configuration there is only the first. -/
def checks (around : Surroundings) (path : Value) : Job (List Check) := do
  match ← outcome (checkConfig around path) with
  | .error f => return [⟨"configuration", false, f.kindAndMessage⟩]
  | .ok (config, message) =>
    let provider ← check "provider" (checkProvider around config)
    cleanUp
    let store ← check "store" (checkStore config)
    return [⟨"configuration", true, message⟩, provider, store]

/-- The outcome of a health check. -/
structure Health where
  checks : List Check

/-- Whether every check passed. -/
def Health.isHealthy (h : Health) : Bool := h.checks.all (·.passed)

/-- A word for whether something passed. -/
def word (passed : Bool) (yes no : String) : Value := .text (if passed then yes else no)

/-- The outcome of one check as a document. -/
def Check.document (c : Check) : Value :=
  .mapping [("status", word c.passed "pass" "fail"), ("message", .text c.message)]

/-- The outcome of a health check as a document: the status of the whole, and of every check. -/
def Health.document (h : Health) : Value :=
  .mapping [
    ("status", word h.isHealthy "healthy" "unhealthy"),
    ("checks", .mapping (h.checks.map fun c => (Scalar.text c.name, c.document)))]

/-- Checks whether jobs can be run. -/
def health (around : Surroundings) (path : Value) : Health × State :=
  match execute (checks around path) (start around) with
  | (.ok found, s) => (⟨found⟩, s)
  | (.error _, s) => (⟨[]⟩, s)

end Job

end Roster
