import Roster.Directory.Name
import Roster.FileTree
import Roster.Value.Text

/-!
# Failures

Everything that can go wrong is a cause with the facts that belong to it. A cause has a kind, by
which callers decide what to do about it, a message in words, and where it was raised on account of
another failure the kind of that one.

Kinds form a hierarchy (`FailureKind.isA`): a connection failure is a lookup failure, an identity
of no known kind is a synchronisation failure and a bad value, and so on.
-/

namespace Roster

/-- The kinds of failure. -/
inductive FailureKind where
  | configuration
  | lookup
  | connection
  | store
  | sync
  | identityKind
  | retries
  | unsupported
  | badValue
  | missingKey
  | network
  | system
  | any
  | malformed
  | directory
  | bind
  | overflow
  | noFile
  | notFolder
  | isFolder
  | outOfRange
deriving DecidableEq, Inhabited

namespace FailureKind

/-- The name of a kind in messages and answers. -/
def name : FailureKind → String
  | configuration => "ConfigurationError"
  | lookup => "ProviderLookupError"
  | connection => "ProviderConnectionError"
  | store => "StoreError"
  | sync => "SyncError"
  | identityKind => "InvalidIdentityKind"
  | retries => "MaxRetriesExceeded"
  | unsupported => "NotImplementedError"
  | badValue => "ValueError"
  | missingKey => "KeyError"
  | network => "ConnectionError"
  | system => "OSError"
  | any => "Exception"
  | malformed => "BadType"
  | directory => "LDAPException"
  | bind => "LDAPBindError"
  | overflow => "OverflowError"
  | noFile => "FileNotFoundError"
  | notFolder => "NotADirectoryError"
  | isFolder => "IsADirectoryError"
  | outOfRange => "IndexError"

/-- The kinds of the failures that a caller may bring along. -/
def portable : List FailureKind := [any, network, system, badValue, missingKey, store, lookup]

/-- The kind that a name stands for when a caller brings a failure along; a name that is not known
is missing where it is looked up (`Failure.brought`). -/
def ofName? (s : String) : Option FailureKind := portable.find? fun k => k.name == s

/-- Whether a failure of the first kind also counts as one of the second. -/
def isA (k super : FailureKind) : Bool :=
  k == super || super == any ||
  match k, super with
  | connection, lookup => true
  | identityKind, sync => true
  | identityKind, badValue => true
  | network, system => true
  | noFile, system => true
  | notFolder, system => true
  | isFolder, system => true
  | bind, directory => true
  | _, _ => false

/-- Whether messages of this kind are part of the contract. -/
def hasMessage : FailureKind → Bool
  | identityKind | malformed | overflow | noFile | notFolder | isFolder | outOfRange => false
  | _ => true

end FailureKind

/-- The operations of a store that can be made to fail. -/
inductive StoreOperation where
  | createUser
  | createGroup
  | removeRecord
  | addMember
  | removeMember
  | setNames
  | convert
deriving DecidableEq

namespace StoreOperation

/-- The name of an operation in messages. -/
def name : StoreOperation → String
  | createUser => "create_user"
  | createGroup => "create_group"
  | removeRecord => "remove_record"
  | addMember => "add_member"
  | removeMember => "remove_member"
  | setNames => "set_external_principal_names"
  | convert => "convert_to_dynamic"

/-- All operations. -/
def all : List StoreOperation :=
  [createUser, createGroup, removeRecord, addMember, removeMember, setNames, convert]

end StoreOperation

/-- The answer of a directory to an operation that did not succeed. As a rule it is a mapping with a
code, a description and whatever else the directory says. -/
structure DirectoryResult where
  said : Value
deriving Inhabited

namespace DirectoryResult

/-- The result as it stands in a message. -/
def text (r : DirectoryResult) : String := r.said.display

/-- A result of a code and its description. -/
def ofCode (code : Number) (description : String) : DirectoryResult :=
  ⟨.mapping [("result", .number code), ("description", .text description)]⟩

/-- The answer when the entry asked for does not exist. -/
def noSuchObject : DirectoryResult := ofCode 32 "noSuchObject"

/-- The answer when user and password do not match. -/
def invalidCredentials : DirectoryResult := ofCode 49 "invalidCredentials"

/-- Whether the entry asked for does not exist; an answer that is no mapping does not tell. -/
def isNoSuchObject? (r : DirectoryResult) : Option Bool :=
  r.said.mapping?.map fun fields =>
    ((fields.lookup (.text "result")).bind Value.number?).any fun code => code.same 32

end DirectoryResult

/-- What went wrong, with the facts that belong to it. -/
inductive Failure where
  /- the store -/
  | duplicateRecord (id : Value)
  | recordNotFound (id : Value)
  | notAGroup (id : Value)
  | namesOfLegacy (id : Value)
  | unknownGroup (id : Value)
  | unknownMember (id : Value)
  | unreadableSnapshot (path : String)
  | unwritableSnapshot (path : String)
  | refused (op : StoreOperation) (id : Value)
  /- looking identities up -/
  | lookupRefused (id : Value)
  | mappingRefused (id : Value)
  | queryFailed (base : Value) (reason : String)
  | searchFailed (base : Value) (result : DirectoryResult)
  | listingFailed (reason : String)
  | invalidGroupName (name : Value) (fault : NameFault)
  | notExternalGroup (ref : String)
  /- connecting to a provider -/
  | notConnected
  | serverFailed (reason : String)
  | connectFailed (attempts : Nat) (reason : String)
  | tlsFailed (reason : String)
  | keystoreUnreadable (path reason : String)
  | keystoreIncomplete (path : String)
  /- synchronising -/
  | syncFailed (subject : String) (cause : Failure)
  | typesDiffer (id : Value) (ref : String)
  | differentType (id : Value)
  | providerMismatch (provider configured : Value)
  | userNotFound (id : Value)
  | groupNotFound (name : Value)
  | invalidKind
  /- files -/
  | badPath (fault : PathFault) (path : String)
  | negativeHandle
  | closedHandle
  /- configuration -/
  | configMissing (path : String)
  | configUnreadable
  | configNotMapping (path : String)
  | configInvalid (problems : List String)
  | configFailed
  | conversionDisabled
  /- values -/
  | notLegacy (id : Value)
  | notAnInteger (text : String)
  | tooManyDigits (count : Nat)
  | overflow
  | unknownMode (shown : String)
  | unknownLevel (shown : String)
  | unknownJob (name : Value)
  | badPair (index length : Nat)
  | missingKey (key : String)
  | malformed
  /- providers and their directory -/
  | noDirectNames (provider : Value)
  | directory (reason : String)
  | bindFailed (what : String) (result : DirectoryResult)
  /- retries, and failures that a caller brings along -/
  | retriesExhausted (attempts : Nat) (last : Failure)
  | raised (kind : FailureKind) (said : Value)
  | negativeWait
  /-- A wait of more nanoseconds than 64 bits with a sign can count. -/
  | waitTooLong
  /-- There are fewer outcomes than attempts. -/
  | noOutcomeLeft

/-- What the system says about a path that leads nowhere. -/
def PathFault.text (path : String) : PathFault → String
  | missing => s!"[Errno 2] No such file or directory: {quoted path}"
  | notFolder => s!"[Errno 20] Not a directory: {quoted path}"
  | isFolder => s!"[Errno 21] Is a directory: {quoted path}"
  | nameTooLong => s!"[Errno 36] File name too long: {quoted path}"
  | zeroByte => "embedded null byte"

namespace Failure

/-- How much of a quoted text is shown when it is no integer. -/
def maxShown : Nat := 200

/-- The kind of a failure. -/
def kind : Failure → FailureKind
  | duplicateRecord _ | recordNotFound _ | notAGroup _ | namesOfLegacy _ | unknownGroup _
  | unknownMember _ | unreadableSnapshot _ | unwritableSnapshot _ | refused _ _ => .store
  | lookupRefused _ | mappingRefused _ | queryFailed _ _ | searchFailed _ _ | listingFailed _
  | invalidGroupName _ _ | notExternalGroup _ => .lookup
  | notConnected | serverFailed _ | connectFailed _ _ | tlsFailed _ | keystoreUnreadable _ _
  | keystoreIncomplete _ => .connection
  | syncFailed _ _ | typesDiffer _ _ | differentType _ | providerMismatch _ _ | userNotFound _
  | groupNotFound _ => .sync
  | invalidKind => .identityKind
  | configMissing _ | configUnreadable | configNotMapping _ | configInvalid _ | configFailed
  | conversionDisabled => .configuration
  | notLegacy _ | notAnInteger _ | tooManyDigits _ | unknownMode _ | unknownLevel _ | unknownJob _
  | badPair _ _ | negativeHandle | negativeWait => .badValue
  | overflow | waitTooLong => .overflow
  | badPath .missing _ => .noFile
  | badPath .notFolder _ => .notFolder
  | badPath .isFolder _ => .isFolder
  | badPath .nameTooLong _ | closedHandle => .system
  | badPath .zeroByte _ => .badValue
  | missingKey _ => .missingKey
  | malformed => .malformed
  | noDirectNames _ => .unsupported
  | directory _ => .directory
  | bindFailed _ _ => .bind
  | retriesExhausted _ _ => .retries
  | raised k _ => k
  | noOutcomeLeft => .outOfRange

/-- The words of a failure. -/
def text : Failure → String
  | duplicateRecord id => s!"Record already exists: {id}"
  | recordNotFound id => s!"Record not found: {id}"
  | notAGroup id => s!"Not a group: {id}"
  | namesOfLegacy id =>
    s!"Record {id} is in legacy mode; convert it before setting principal names"
  | unknownGroup id => s!"Membership references unknown group: {id}"
  | unknownMember id => s!"Membership references unknown record: {id}"
  | unreadableSnapshot path => s!"Invalid YAML in store snapshot {path}"
  | unwritableSnapshot path => s!"Failed to write store snapshot {path}"
  | refused op id => s!"{op.name} failed: {id}"
  | lookupRefused id => s!"lookup failed: {id}"
  | mappingRefused id => s!"mapping failed: {id}"
  | queryFailed base reason => s!"LDAP query failed for {base}: {reason}"
  | searchFailed base result => s!"Search failed for {base}: {result.text}"
  | listingFailed reason => s!"Paged user search failed: {reason}"
  | invalidGroupName name fault => s!"Invalid group DN {name}: " ++ fault.text
  | notExternalGroup ref => s!"Not an external group: {ref}"
  | notConnected => "Not connected to LDAP server"
  | serverFailed reason => s!"Failed to create LDAP server: {reason}"
  | connectFailed attempts reason =>
    s!"Failed to connect to LDAP after {attempts} attempts: {reason}"
  | tlsFailed reason => s!"Failed to create TLS configuration: {reason}"
  | keystoreUnreadable path reason => s!"Failed to load PKCS12 keystore {path}: {reason}"
  | keystoreIncomplete path => s!"PKCS12 keystore {path} lacks a certificate or key"
  | syncFailed subject cause => s!"Failed to sync {subject}: " ++ cause.text
  | typesDiffer id ref => s!"Local record {id} and {ref} differ in type"
  | differentType id => s!"Local record {id} exists with a different principal type"
  | providerMismatch provider configured =>
    s!"Provider {provider} does not match configured provider {configured}"
  | userNotFound id => s!"External user not found: {id}"
  | groupNotFound name => s!"External group not found: {name}"
  | invalidKind => "Identity must be user or group"
  | configMissing path => s!"Configuration file not found: {path}"
  | configUnreadable => "Invalid YAML in config file"
  | configNotMapping path => s!"Configuration root must be a mapping: {path}"
  | configInvalid problems =>
    "Configuration validation failed:\n" ++
      "\n".intercalate (problems.map fun p => "  - " ++ p)
  | configFailed => "Failed to load configuration"
  | conversionDisabled => "Conversion requires sync.user.dynamic_membership to be enabled"
  | notLegacy id => s!"Record {id} is not in legacy membership mode"
  | notAnInteger t =>
    "invalid literal for int() with base 10: " ++ String.ofList ((quoted t).toList.take maxShown)
  | tooManyDigits count =>
    s!"Exceeds the limit (4300 digits) for integer string conversion: value has {count} digits; " ++
      "use sys.set_int_max_str_digits() to increase the limit"
  | overflow => "int too large to convert to float"
  | badPath fault p => fault.text p
  | negativeHandle => "negative file descriptor"
  | closedHandle => "[Errno 9] Bad file descriptor"
  | unknownMode shown => s!"{shown} is not a valid MembershipMode"
  | unknownLevel shown => s!"Unknown level: {shown}"
  | unknownJob name => s!"Unknown job mode: {name}"
  | badPair index length =>
    s!"dictionary update sequence element #{index} has length {length}; 2 is required"
  | missingKey key => quoted key
  | malformed => ""
  | noDirectNames provider => s!"Provider {provider} does not map references to principal names"
  | directory reason => reason
  | bindFailed what result => s!"{what}: {result.text}"
  | retriesExhausted attempts last => s!"Gave up after {attempts} attempts: " ++ last.text
  | raised .missingKey v => v.inner
  | raised _ v => v.display
  | negativeWait => "sleep length must be non-negative"
  | waitTooLong => "timestamp too large to convert to C _PyTime_t"
  | noOutcomeLeft => "list index out of range"

/-- The failure that a caller brings along, by the name of its kind and what it says. -/
def brought (name said : Value) : Failure :=
  match name.text?.bind FailureKind.ofName? with
  | some kind => .raised kind said
  | none => .raised .missingKey name

/-- What begins the messages that go on with the words of a library outside this one. -/
def beforeLibrary : List String := ["Invalid YAML in config file", "Failed to load configuration"]

/-- What begins the messages that go on with a path and then with the words of a library. -/
def beforePath : List String :=
  ["Invalid YAML in store snapshot ", "Failed to load PKCS12 keystore ",
    "Failed to write store snapshot "]

/-- A message without what a library outside this one has to say about it. -/
def shorten (message : String) : String :=
  if let some start := beforeLibrary.find? fun start => message.startsWith (start ++ ": ") then
    start
  else if let some start := beforePath.find? fun start => message.startsWith start then
    start ++ ((String.ofList (message.toList.drop start.length)).splitOn ": ").headD ""
  else message

/-- The message of a failure, where messages of its kind are part of the contract. -/
def message? (f : Failure) : Option String :=
  if f.kind.hasMessage then some (shorten f.text) else none

/-- The kind of the failure on whose account this one was raised. -/
def cause? : Failure → Option FailureKind
  | syncFailed _ cause => some cause.kind
  | retriesExhausted _ last => some last.kind
  | _ => none

/-- The name of the kind, followed by the message where there is one. -/
def kindAndMessage (f : Failure) : String :=
  match f.message? with
  | some m => f.kind.name ++ ": " ++ m
  | none => f.kind.name

/-- Whether the failure counts as one of the given kind. -/
def isA (f : Failure) (k : FailureKind) : Bool := f.kind.isA k

end Failure

end Roster
