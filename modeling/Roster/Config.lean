import Roster.File
import Roster.Journal

/-!
# Configuration

A configuration is a document with a `sync` section (policy and provider name), a section for the
provider, and sections for the store, for logging and for error handling. Loading reads it from a
file, puts secrets from environment variables in, checks it (all problems are reported together)
and completes it: what is missing gets its default, and a section that is no mapping is replaced by
the defaults of that section. A value that is present stays.
-/

namespace Roster

/-- Environment variables. -/
abbrev Environment := Assoc String String

namespace Config

/-- Where log lines of this part come from. -/
def source : String := "config"

/-- The key of a section, the field in it and the environment variable that overrides it. -/
def overrides : List (String × String × String) :=
  [("ldap", "bind_password", "LDAP_BIND_PASSWORD"),
    ("ldap", "keystore_password", "LDAP_KEYSTORE_PASSWORD")]

/-- The kinds of provider that a configuration may name. -/
def providerTypes : List String := ["ldap", "memory"]

/-- The fields a directory cannot do without. -/
def requiredDirectoryFields : List String := ["server_url", "bind_dn", "bind_password"]

/-- The defaults of every configuration. -/
def defaults : Fields := [
  ("provider_type", .text "ldap"),
  ("sync", .mapping [
    ("user", .mapping [
      ("auto_membership", .list []),
      ("property_mapping", .mapping []),
      ("expiration_time", .int 3600),
      ("membership_nesting_depth", .int 1),
      ("dynamic_membership", .bool false),
      ("enforce_dynamic_membership", .bool false)]),
    ("group", .mapping [
      ("auto_membership", .list []),
      ("property_mapping", .mapping []),
      ("expiration_time", .int 3600),
      ("dynamic_groups", .bool false)])]),
  ("store", .mapping [("path", .text "store.yaml")]),
  ("logging", .mapping [
    ("level", .text "INFO"),
    ("log_dir", .text "logs"),
    ("rotation", .text "daily"),
    ("retention_days", .int 7)]),
  ("error_handling", .mapping [("max_retries", .int 3), ("retry_wait_seconds", .int 5)])]

/-- The defaults of a directory section. -/
def directoryDefaults : Fields := [
  ("user_base_dn", .text ""),
  ("user_filter", .text "(objectClass=person)"),
  ("user_id_attribute", .text "uid"),
  ("group_name_attribute", .text "cn"),
  ("member_of_attribute", .text "memberOf"),
  ("attributes", .texts ["cn", "givenName", "sn", "mail"])]

/-- A field's section in a mapping; anything but a mapping counts as an empty one. -/
def sectionOf (target : Fields) (key : Scalar) : Fields :=
  match target.lookup key with
  | some (.mapping fs) => fs
  | _ => []

/-- The target with what it lacks of the defaults; sections are completed in depth. -/
def complete (target : Fields) : List (Scalar × Value) → Fields
  | [] => target
  | (key, .mapping inner) :: rest =>
    complete (target.set key (.mapping (complete (sectionOf target key) inner))) rest
  | (key, v) :: rest => complete (if target.has key then target else target.set key v) rest

/-- Applies one override; an unset or empty variable overrides nothing. -/
def override (env : Environment) (config : Fields) : String × String × String → Reply Fields
  | (key, field, name) =>
    match env.lookup name with
    | none => pure config
    | some "" => pure config
    | some secret => do
      Reply.log .debug source s!"Applied environment override for {key}.{field}"
      let part := (sectionOf config (.text key)).set (.text field) (.text secret)
      return config.set (.text key) (.mapping part)

/-- Applies all overrides. -/
def applyOverrides (env : Environment) (config : Fields) : Reply Fields :=
  overrides.foldlM (override env) config

/-- The value of a field or the given one. -/
def fieldOr (fields : Fields) (key : String) (v : Value) : Value :=
  (fields.lookup (.text key)).getD v

/-- A number that is not negative. -/
def isAmount : Value → Bool
  | .number n => !(n < 0)
  | _ => false

def isInteger : Value → Bool
  | .number (.int _) => true
  | _ => false

/-- The problems of the `user` or `group` part of the `sync` section. -/
def partProblems (sync : Fields) (name : String) : List String :=
  match (fieldOr sync name .null).orElse (.mapping []) with
  | .mapping fields =>
    (if (fieldOr fields "auto_membership" (.list [])).isList then []
      else [s!"sync.{name}.auto_membership must be a list of group ids"]) ++
    (if (fieldOr fields "property_mapping" (.mapping [])).isMapping then []
      else [s!"sync.{name}.property_mapping must be a mapping"]) ++
    (if isAmount (fieldOr fields "expiration_time" (.int 0)) then []
      else [s!"sync.{name}.expiration_time must be a non-negative number"]) ++
    (if name != "user" || isInteger (fieldOr fields "membership_nesting_depth" (.int 1)) then []
      else ["sync.user.membership_nesting_depth must be an integer"])
  | _ => [s!"sync.{name} must be a mapping"]

/-- The problems of the `sync` section. -/
def syncProblems (config : Fields) : List String :=
  match config.lookup (.text "sync") with
  | some (.mapping sync) =>
    (if (fieldOr sync "provider" .null).truthy then []
      else ["Missing required sync field: provider"]) ++
    partProblems sync "user" ++ partProblems sync "group"
  | _ => ["Missing required section: sync"]

/-- The name of the provider type, where it is one that is known. -/
def providerType? (config : Fields) : Option String :=
  match fieldOr config "provider_type" (.text "ldap") with
  | .text t => if providerTypes.contains t then some t else none
  | _ => none

/-- The problems of the provider section. -/
def providerProblems (config : Fields) : Except Failure (List String) :=
  match providerType? config with
  | none =>
    .ok ["Unsupported provider_type: " ++ (fieldOr config "provider_type" (.text "ldap")).display]
  | some "ldap" =>
    match (fieldOr config "ldap" .null).orElse (.mapping []) with
    | .mapping fields =>
      .ok ((requiredDirectoryFields.filter fun f => !(fieldOr fields f .null).truthy).map
        fun f => s!"Missing required LDAP field: {f}")
    | _ => .error .malformed
  | some _ => .ok []

/-- All problems of a configuration. -/
def problems (config : Fields) : Except Failure (List String) :=
  (providerProblems config).map (syncProblems config ++ ·)

/-- A configuration without problems, completed. -/
def completed (config : Fields) : Fields :=
  let config := complete config defaults
  match config.lookup (.text "provider_type"), config.lookup (.text "ldap") with
  | some (.text "ldap"), some (.mapping fields) =>
    config.set (.text "ldap") (.mapping (complete fields directoryDefaults))
  | _, _ => config

/-- Checks and completes a configuration after its overrides. -/
def check (config : Fields) : Except Failure Fields :=
  match problems config with
  | .error f => .error f
  | .ok [] => .ok (completed config)
  | .ok ps => .error (.configInvalid ps)

/-- The path of the configuration file: the one asked for, else the one the environment names. -/
def pathFor (path : Value) (env : Environment) : Value :=
  path.orElse (.text ((env.lookup "CONFIG_PATH").getD "config.yaml"))

/-- The content of the configuration file. -/
def fileContent (files : Files) (path : String) : Except Failure FileContent :=
  match files.read path with
  | .ok content => .ok content
  | .error .missing => .error (.configMissing path)
  | .error fault => .error (.badPath fault path)

/-- The document of a configuration file; one that counts as false is an empty mapping. -/
def fileFields (files : Files) (path : String) : Except Failure Fields := do
  match ← fileContent files path with
  | .unreadable => throw .configUnreadable
  | .document v =>
    match v.orElse (.mapping []) with
    | .mapping fields => return fields
    | _ => throw (.configNotMapping path)

/-- The path as a text. What stands for a file that was opened before leads nowhere. -/
def pathText (path : Value) : Except Failure String :=
  match path, path.handle? with
  | .text path, _ => .ok path
  | _, some n =>
    if !isHandle n then .error .malformed
    else .error (if n < 0 then .negativeHandle else .closedHandle)
  | _, none => .error .malformed

/-- Loads a configuration. -/
def load (files : Files) (path : Value) (env : Environment) : Reply Fields := do
  let path ← Reply.ofResult (pathText (pathFor path env))
  let fields ← Reply.ofResult (fileFields files path)
  let fields ← applyOverrides env fields
  let fields ← Reply.ofResult (check fields)
  Reply.log .info source s!"Configuration loaded successfully from {path}"
  return fields

end Config

end Roster
