import Roster.Directory
import Roster.File
import Roster.Retry.Run

/-!
# Connections to a directory

Connecting takes three stages: preparing the secure channel where one is asked for, naming the
server, and then opening and binding, which alone is tried again when it fails. What the other side
does is given as a `Script`, and how the waits between attempts are slept as a `Sleep`: one that it
refuses ends connecting in that failure. A failed connect leaves the connection that was there
before.

* `Directory.openAndBind`: one attempt; a failure after opening unbinds.
* `Directory.connect`, `Directory.close`.
-/

namespace Roster

/-- A keystore: a certificate and its key, null where it holds none, or why it cannot be read. -/
inductive Keystore where
  | unreadable (reason : String)
  | pair (key certificate : Value)
  /-- Something in the place of a keystore. -/
  | unusable

/-- What the other side does while a connection is made. -/
structure Script where
  serverError : Option String := none
  tlsError : Option String := none
  /-- What happens to each new connection. -/
  attempts : List Link := []
  keystore : Option Keystore := none
  /-- The files of the working folder. -/
  files : FileTree String := {}

namespace Directory

/-- Carries out a step of a connection; the answer says whether the other side agreed. -/
def perform (c : Call) (outcome : LinkOutcome) : Reply Bool := do
  Reply.call c
  match outcome with
  | .done => return true
  | .refused => return false
  | .broken reason => throw (.directory reason)

/-- The steps of an attempt after its connection was created. -/
def bindSteps (d : Directory) (l : Link) : Reply Unit := do
  let _ ← perform .openConnection l.opening
  if d.settings.startTls.truthy && !d.settings.useSsl.truthy then
    if !(← perform .startTls l.securing) then throw (.bindFailed "Failed to start TLS" l.result)
    Reply.log .debug source "StartTLS negotiation successful"
  if !(← perform .bind l.binding) then throw (.bindFailed "Bind failed" l.result)

/-- One attempt to open a connection and to bind it. -/
def openAndBind (d : Directory) (l : Link) : Reply Link := do
  let s := d.settings
  Reply.call (.connection s.bindName s.bindPassword s.receiveTimeout)
  try
    d.bindSteps l
    return l
  catch f =>
    if f.isA .directory then
      let _ ← perform .unbind l.unbinding
    throw f

/-- The content of a keystore. -/
def readKeystore (script : Script) (path : Value) : Except Failure String :=
  match path, path.handle? with
  | .text path, _ =>
    match script.files.read path with
    | .ok content => .ok content
    | .error fault => .error (.keystoreUnreadable path (fault.text path))
  | v, some n => .error (if isHandle n then .keystoreUnreadable v.display "" else .malformed)
  | _, none => .error .malformed

/-- The content of a certificate or a key, which is never empty. -/
def pemText : Value → Except Failure String
  | .text s => if s.isEmpty then .error .malformed else .ok s
  | _ => .error .malformed

/-- The certificate and the key of a keystore. -/
def loadKeystore (d : Directory) (script : Script) : Reply (String × String) := do
  let content ← Reply.ofResult (readKeystore script d.settings.keystoreFile)
  let path := d.settings.keystoreFile.display
  let password ← match d.settings.keystorePassword.orElse .null with
    | .null => pure none
    | .text s => pure (some s)
    | _ => throw .malformed
  let some keystore := script.keystore | throw (.missingKey "pkcs12")
  Reply.call (.keystore content password)
  match keystore with
  | .unreadable reason => throw (.keystoreUnreadable path reason)
  | .unusable => throw .malformed
  | .pair .null _ | .pair _ .null => throw (.keystoreIncomplete path)
  | .pair key certificate =>
    let pair := (← Reply.ofResult (pemText certificate), ← Reply.ofResult (pemText key))
    Reply.log .info source s!"Loaded PKCS12 client certificate: {path}"
    return pair

/-- How a temporary file is readable: by its owner only. -/
def privateMode : String := "600"

/-- How a file with a certificate is named; a temporary file has no name worth telling. -/
def shownFile (path : String) : String :=
  if path.startsWith "/tmp/" && path.endsWith ".pem" then "file" else path

/-- The certificate and the key that the client presents, and how the certificate is named. -/
def clientPair (d : Directory) (script : Script) :
    Reply (Option (TlsOption × TlsOption × String)) := do
  let s := d.settings
  if s.keystoreFile.truthy then
    let (certificate, key) ← d.loadKeystore script
    return some (.file certificate privateMode, .file key privateMode, "file")
  else if s.certificateFile.truthy && s.keyFile.truthy then
    return some (.value s.certificateFile, .value s.keyFile, shownFile s.certificateFile.display)
  else return none

/-- The options of the secure channel. -/
def tlsOptions (s : Settings) (client : Option (TlsOption × TlsOption × String)) :
    List (String × TlsOption) :=
  [("validate", .value (.text (if s.verifySsl.truthy then "CERT_REQUIRED" else "CERT_NONE")))]
  ++ (if s.authorityFile.truthy then [("ca_certs_file", .value s.authorityFile)] else [])
  ++ match client with
    | some (certificate, key, _) =>
      [("local_certificate_file", certificate), ("local_private_key_file", key)]
    | none => []

/-- Prepares the secure channel; the answer says whether there is one. -/
def secure (d : Directory) (script : Script) : Reply Bool := do
  let s := d.settings
  if !(s.useSsl.truthy || s.startTls.truthy) then return false
  if !s.verifySsl.truthy then
    Reply.log .warning source "Server certificate is not verified (verify_ssl is off)"
  let client ← d.clientPair script
  if let some (_, _, shown) := client then
    Reply.log .debug source s!"Presenting client certificate {shown}"
  Reply.call (.tls (tlsOptions s client))
  match script.tlsError with
  | some reason => throw (.tlsFailed reason)
  | none => return true

/-- Connects to the directory, under a policy that may turn out to be none when it is needed. -/
def connect (d : Directory) (sleep : Sleep) (script : Script)
    (policy : Except Failure (RetryPolicy Value)) : Reply Directory := do
  let tls ← d.secure script
  let s := d.settings
  let url := s.url
  Reply.call (.server url s.useSsl s.connectTimeout tls)
  if let some reason := script.serverError then throw (.serverFailed reason)
  let attempt (k : Nat) : Reply Link := d.openAndBind (script.attempts[k - 1]?.getD {})
  let link ←
    try RetryPolicy.runUnder sleep policy s!"LDAP bind to {url}" [.directory] attempt
    catch f => match f with
      | .retriesExhausted attempts last => throw (.connectFailed attempts last.text)
      | f => throw f
  Reply.log .info source s!"Successfully connected and bound to LDAP server {url}"
  return { d with link := some link }

/-- Closes the connection, if there is one. A failure to do so is only logged. -/
def close (d : Directory) : Reply Directory := do
  match d.link with
  | none => return d
  | some l =>
    try
      let _ ← perform .unbind l.unbinding
      Reply.log .debug source "LDAP connection closed"
    catch f =>
      let reason := f.text
      Reply.log .warning source s!"Error closing LDAP connection: {reason}"
    return { d with link := none }

end Directory

end Roster
