import Roster.Value.Convert

/-!
# Search filters

A directory is searched by filters in parentheses. A text that a caller brings along is escaped
before it becomes part of a filter, so that it can neither close the filter nor act as a pattern.
-/

namespace Roster

/-- A character as it stands inside a filter. -/
def escapeFilterChar (c : Char) : List Char :=
  match c with
  | '\\' => ['\\', '5', 'c']
  | '*' => ['\\', '2', 'a']
  | '(' => ['\\', '2', '8']
  | ')' => ['\\', '2', '9']
  | '\x00' => ['\\', '0', '0']
  | c => [c]

/-- Characters as they stand inside a filter. -/
def escapeFilterChars (s : List Char) : List Char := s.flatMap escapeFilterChar

/-- A text as it stands inside a filter. -/
def escapeFilter (s : String) : String := String.ofList (escapeFilterChars s.toList)

/-- A byte as it stands inside a filter. -/
def escapeByte (n : Int) : String :=
  if n < 0 then "\\-" ++ hexText 1 n.natAbs else "\\" ++ hexText 2 n.natAbs

/-- A value as it stands inside a filter: the words for a number or truth value, a list as the bytes
that it names, and nothing for any other value that counts as false. -/
def escapeValue (v : Value) : Except Failure String :=
  match v with
  | .text s => .ok (escapeFilter s)
  | .bool _ | .number _ => .ok v.display
  | v => do
    if !v.truthy then return ""
    return String.join ((← (← v.toItems).mapM Value.toInteger).map escapeByte)

/-- The filter for the entries of a kind that have a value of the attribute `key`. -/
def filterBy (kind key value : Value) : Except Failure String := do
  return "(&" ++ kind.display ++ "(" ++ key.display ++ "=" ++ (← escapeValue value) ++ "))"

end Roster
