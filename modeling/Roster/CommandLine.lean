import Roster.Job
import Roster.Text.Digit

/-!
# The command line

A job is started from the command line by one of several actions. Options can be shortened to any
unambiguous beginning of their long names; the value of an option follows it, or is joined to it by
an equals sign, or to its short name directly. Two different actions exclude each other, and words
that belong to no option are an error.

All words are told apart first (`Word.read`): options, values, and words that are neither. Then the
options take their values from left to right (`Reading.words`).
-/

namespace Roster

namespace CommandLine

/-- The options. -/
inductive Flag where
  | help
  | config
  | user
  | group
  | allUsers
  | resync
  | convert
  | healthCheck
deriving DecidableEq

namespace Flag

/-- All options. -/
def all : List Flag := [help, config, user, group, allUsers, resync, convert, healthCheck]

/-- The long name of an option. -/
def long : Flag → String
  | help => "--help"
  | config => "--config"
  | user => "--user"
  | group => "--group"
  | allUsers => "--all-users"
  | resync => "--resync"
  | convert => "--convert"
  | healthCheck => "--health-check"

/-- The letter of an option that has a short name. -/
def letter? : Flag → Option Char
  | help => some 'h'
  | config => some 'c'
  | user => some 'u'
  | group => some 'g'
  | _ => none

/-- Whether an option takes a value. -/
def takesValue : Flag → Bool
  | config | user | group => true
  | _ => false

/-- Whether an option is an action, so that it excludes the other ones. -/
def isAction : Flag → Bool
  | help | config => false
  | _ => true

/-- The option with a letter. -/
def ofLetter? (c : Char) : Option Flag := all.find? fun f => f.letter? = some c

/-- The options whose long names begin with a text. -/
def beginning (text : String) : List Flag := all.filter fun f => f.long.startsWith text

end Flag

/-- What a value is joined to: the long name of its option or the letter. -/
inductive Joint where
  | name
  | letter
deriving DecidableEq

/-- What a word of the command line is. -/
inductive Word where
  | option (f : Flag) (joined : Option (Joint × List Char))
  | unknown
  | value (s : String)
  /-- Ends the options. -/
  | separator

/-- Why reading ends before all words were read. -/
inductive Ending where
  | help
  | misuse
deriving DecidableEq

/-- A text around its first equals sign. -/
def splitEquals (s : List Char) : Option (List Char × List Char) :=
  match s.dropWhile (· != '=') with
  | [] => none
  | _ :: value => some (s.takeWhile (· != '='), value)

/-- Whether a text is a negative number, which is a value although it begins with a hyphen. A line
break may follow it. -/
def isNegativeNumber (s : List Char) : Bool :=
  let isDigit (c : Char) : Bool := (digitValue? c).isSome
  match if s.getLast? = some '\n' then s.dropLast else s with
  | '-' :: digits =>
    match digits.dropWhile isDigit with
    | [] => !digits.isEmpty
    | '.' :: fraction => !fraction.isEmpty && fraction.all isDigit
    | _ => false
  | _ => false

namespace Word

/-- A word that is no option that is known: a value if it looks like one. -/
def other (s : String) : Word :=
  if isNegativeNumber s.toList || s.contains ' ' then value s else unknown

/-- A word that begins with two hyphens. -/
def long (s : String) : Except Ending Word :=
  let (name, joined) := match splitEquals s.toList with
    | some (name, v) => (String.ofList name, some (Joint.name, v))
    | none => (s, none)
  match Flag.all.find? fun f => f.long == name with
  | some f => .ok (option f joined)
  | none =>
    match Flag.beginning name with
    | [f] => .ok (option f joined)
    | [] => .ok (other s)
    | _ => .error .misuse

/-- A word that begins with one hyphen. -/
def short (s : String) (c : Char) (rest : List Char) : Word :=
  match Flag.ofLetter? c, rest with
  | some f, [] => option f none
  | some f, '=' :: v => option f (some (.letter, v))
  | some f, v => option f (some (.letter, v))
  | none, _ => other s

/-- What a word is. -/
def read (s : String) : Except Ending Word :=
  match s.toList with
  | ['-', '-'] => .ok separator
  | '-' :: '-' :: _ => long s
  | '-' :: c :: rest => .ok (short s c rest)
  | _ => .ok (value s)

/-- What the words are; those after a separator are values. -/
def readAll : List String → Except Ending (List Word)
  | [] => .ok []
  | s :: rest => do
    match ← read s with
    | separator => return separator :: rest.map value
    | w => return w :: (← readAll rest)

end Word

/-- What the options say. -/
structure Reading where
  config : Value := .null
  users : List Value := []
  groups : List Value := []
  /-- The action that was asked for. -/
  action : Option Flag := none
  /-- Whether there are words that belong to no option. -/
  leftover : Bool := false

namespace Reading

/-- The value that a text stands for. Two hyphens are taken for the mark that ends the options and
leave an empty list in their place. -/
def valueOf (s : String) : Value := if s = "--" then .list [] else .text s

/-- Takes an option with its value in. -/
def take (r : Reading) (f : Flag) (v : Value) : Except Ending Reading :=
  if f.isAction && r.action.any (· != f) then .error .misuse
  else
    match f with
    | .help => .error .help
    | .config => .ok { r with config := v }
    | .user => .ok { r with users := r.users ++ [v], action := some f }
    | .group => .ok { r with groups := r.groups ++ [v], action := some f }
    | f => .ok { r with action := some f }

/-- What follows the letter of an option without a value: further letters, the last of which may
have a value. The answer says whether that value is still to come. -/
def cluster : List Char → Except Ending Bool
  | [] => .ok false
  | c :: rest =>
    match Flag.ofLetter? c with
    | none => .error .misuse
    | some f => if f.takesValue then .ok rest.isEmpty else cluster rest

/-- Takes an option in that has no value although something is joined to it: only letters of
further options can be. -/
def takeCluster (f : Flag) (joined : Joint × List Char) (following : List Word) :
    Except Ending Unit := do
  if f != .help || joined.1 = .name || joined.2.isEmpty then throw .misuse
  if ← cluster joined.2 then
    match following with
    | .value _ :: _ => throw .help
    | _ => throw .misuse
  throw .help

/-- Takes words in from left to right. -/
def words : Reading → List Word → Except Ending Reading
  | r, [] => .ok r
  | r, .value _ :: rest => words { r with leftover := true } rest
  | r, .unknown :: rest => words { r with leftover := true } rest
  | r, .separator :: rest => words { r with leftover := true } rest
  | r, .option f none :: rest => do
    if f.takesValue then
      match rest with
      | .value v :: rest => words (← r.take f (valueOf v)) rest
      | _ => throw .misuse
    else words (← r.take f .null) rest
  | r, .option f (some joined) :: rest => do
    if f.takesValue then words (← r.take f (valueOf (String.ofList joined.2))) rest
    else
      takeCluster f joined rest
      words r rest

end Reading

/-- What the command line asks for. -/
inductive Request where
  | run (path : Value) (task : Job.Task)
  | health (path : Value)

/-- The path of the configuration that a request names. -/
def Request.path : Request → Value
  | run path _ => path
  | health path => path

/-- The request that was read. -/
def Reading.request (r : Reading) : Except Ending Request :=
  if r.leftover then .error .misuse
  else
    match r.action with
    | some .healthCheck => .ok (.health r.config)
    | some .resync => .ok (.run r.config .resync)
    | some .convert => .ok (.run r.config .convert)
    | some .user => .ok (.run r.config (.users (.list r.users)))
    | some .group => .ok (.run r.config (.groups (.list r.groups)))
    | some .allUsers => .ok (.run r.config (.users .null))
    | _ => .error .misuse

/-- The request that the words of a command line make. -/
def parse (args : List String) : Except Ending Request := do
  let found ← Word.readAll args
  let r ← Reading.words {} found
  r.request

/-- The exit code of an ending: asking for help is no misuse. -/
def Ending.code : Ending → Nat
  | help => 0
  | misuse => 2

/-- The answer to a command line: its exit code, the checks if there were any, and the state that
is left. -/
def run (around : Job.Surroundings) (args : List String) :
    Nat × Option Job.Health × Job.State :=
  match parse args with
  | .error ending => (ending.code, none, Job.start around)
  | .ok (.run path task) =>
    let (code, s) := Job.run around path task
    (code, none, s)
  | .ok (.health path) =>
    let (h, s) := Job.health around path
    (if h.isHealthy then 0 else 1, some h, s)

end CommandLine

end Roster
