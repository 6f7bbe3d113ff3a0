import Roster.Text.Lowercase
import Roster.Value.Convert

/-!
# Settings of a directory

The section of a configuration that describes a directory: where it is and how to bind to it, where
users and groups are found in it and which attributes describe them, and how the channel to it is
secured. Address, user and password are required; everything else has a default.
-/

namespace Roster

/-- How a directory is reached and read. -/
structure Settings where
  url : String
  bindName : Value
  bindPassword : Value
  userBase : Value
  groupBase : Value
  userFilter : Value
  groupFilter : Value
  userKey : Value
  groupKey : Value
  memberOfKey : Value
  /-- The attributes that become properties of an identity; a list is only asked for in a search. -/
  attributes : Value
  /-- The object classes that make an entry a group, in lower case. -/
  groupClasses : List String
  /-- Whether names of groups are read off their distinguished names. -/
  direct : Bool
  useSsl : Value
  startTls : Value
  verifySsl : Value
  authorityFile : Value
  certificateFile : Value
  keyFile : Value
  keystoreFile : Value
  keystorePassword : Value
  connectTimeout : Value
  receiveTimeout : Value
  pageSize : Value

namespace Settings

/-- The object classes of groups. -/
def standardGroupClasses : List String :=
  ["group", "groupOfNames", "groupOfUniqueNames", "posixGroup"]

/-- A field that has to be there. -/
def required (fields : Fields) (key : String) : Except Failure Value :=
  match fields.lookup (.text key) with
  | some v => .ok v
  | none => .error (.missingKey key)

/-- The settings that a section describes. -/
def ofConfig (config : Value) : Except Failure Settings := do
  let some fields := config.mapping? | throw .malformed
  let value (key : String) (standard : Value) : Value := (fields.lookup (.text key)).getD standard
  let url ← required fields "server_url"
  let bindName ← required fields "bind_dn"
  let bindPassword ← required fields "bind_password"
  let userBase := value "user_base_dn" (.text "")
  let classes ← (value "group_object_classes" (.texts standardGroupClasses)).toTexts
  let .text url := url | throw .malformed
  let secure := (lowercase url).startsWith "ldaps://"
  return {
    url, bindName, bindPassword, userBase
    groupBase := (value "group_base_dn" .null).orElse userBase
    userFilter := value "user_filter" (.text "(objectClass=person)")
    groupFilter := value "group_filter" (.text "(objectClass=groupOfNames)")
    userKey := value "user_id_attribute" (.text "uid")
    groupKey := value "group_name_attribute" (.text "cn")
    memberOfKey := value "member_of_attribute" (.text "memberOf")
    attributes := value "attributes" (.texts ["cn", "givenName", "sn", "mail"])
    groupClasses := classes.map lowercase
    direct := (value "use_dn_for_principal_names" (.bool true)).truthy
    useSsl := value "use_ssl" (.bool secure)
    startTls := value "start_tls" (.bool false)
    verifySsl := value "verify_ssl" (.bool true)
    authorityFile := value "ca_cert_file" .null
    certificateFile := value "cert_file" .null
    keyFile := value "key_file" .null
    keystoreFile := value "keystore_file" .null
    keystorePassword := value "keystore_password" .null
    connectTimeout := value "connection_timeout" (.int 10)
    receiveTimeout := value "receive_timeout" (.int 10)
    pageSize := value "page_size" (.int 1000) }

/-- The names of the attributes that become properties. -/
def propertyKeys (s : Settings) : Except Failure (List Value) := s.attributes.toItems

/-- The attributes that a search asks for, each once. -/
def requested (s : Settings) : Except Failure (List Value) := do
  let keys := [.text "objectClass", s.userKey, s.groupKey, s.memberOfKey] ++ (← s.propertyKeys)
  let keys ← keys.mapM Value.toScalar
  let once := keys.foldl (fun found key => if found.contains key then found else key :: found) []
  return once.reverse.map .scalar

end Settings

end Roster
