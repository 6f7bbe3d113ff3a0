import Roster.Value
import Roster.Number.Text

/-!
# JSON text of values

Documents are stored and exchanged as JSON. A number with a point or an exponent is a binary64
value, any other an integer of whatever size. When a mapping names a key twice the last value
counts. Half of a surrogate pair on its own reads as the replacement character.
-/

namespace Roster

namespace Json

/-- The rest of the text after blanks. -/
def skipBlanks : List Char → List Char :=
  List.dropWhile fun c => c == ' ' || c == '\n' || c == '\r' || c == '\t'

def hexValue? (c : Char) : Option Nat :=
  if c.isDigit then some (c.toNat - '0'.toNat)
  else if 'a' ≤ c && c ≤ 'f' then some (c.toNat - 'a'.toNat + 10)
  else if 'A' ≤ c && c ≤ 'F' then some (c.toNat - 'A'.toNat + 10)
  else none

/-- Four digits in base sixteen. -/
def hex4? (a b c d : Char) : Option Nat := do
  return (((← hexValue? a) * 16 + (← hexValue? b)) * 16 + (← hexValue? c)) * 16 + (← hexValue? d)

/-- The character of one or two UTF-16 units, and whether the second one was used. -/
def unitsChar (hi : Nat) (lo? : Option Nat) : Char × Bool :=
  if 0xd800 ≤ hi && hi < 0xdc00 then
    match lo? with
    | some lo =>
      if 0xdc00 ≤ lo && lo < 0xe000 then
        (Char.ofNat (0x10000 + (hi - 0xd800) * 0x400 + (lo - 0xdc00)), true)
      else ('\ufffd', false)
    | none => ('\ufffd', false)
  else if 0xdc00 ≤ hi && hi < 0xe000 then ('\ufffd', false)
  else (Char.ofNat hi, false)

/-- The simple escapes. -/
def escape? : Char → Option Char
  | '"' => some '"'
  | '\\' => some '\\'
  | '/' => some '/'
  | 'b' => some '\x08'
  | 'f' => some '\x0c'
  | 'n' => some '\n'
  | 'r' => some '\r'
  | 't' => some '\t'
  | _ => none

/-- The second half of a surrogate pair, when the text goes on with one. -/
def nextUnit? : List Char → Option Nat
  | '\\' :: 'u' :: a :: b :: c :: d :: _ => hex4? a b c d
  | _ => none

/-- The rest of a string after its opening quote; `acc` holds what was read, last first. -/
def readString (acc s : List Char) : Option (String × List Char) :=
  match s with
  | [] => none
  | '"' :: rest => some (String.ofList acc.reverse, rest)
  | '\\' :: 'u' :: a :: b :: c :: d :: rest =>
    match hex4? a b c d with
    | none => none
    | some hi =>
      let (ch, paired) := unitsChar hi (nextUnit? rest)
      readString (ch :: acc) (if paired then rest.drop 6 else rest)
  | '\\' :: e :: rest =>
    match escape? e with
    | none => none
    | some ch => readString (ch :: acc) rest
  | c :: rest => readString (c :: acc) rest
termination_by s.length
decreasing_by
  · split
    · simp only [List.length_drop, List.length_cons]
      omega
    · simp only [List.length_cons]
      omega
  · simp only [List.length_cons]
    omega
  · simp only [List.length_cons]
    omega

/-- The value of a row of digits. -/
def digitsNat (ds : List Char) : Nat := ds.foldl (fun n c => n * 10 + (c.toNat - '0'.toNat)) 0

/-- The exponent, when one follows. -/
def readExponent? : List Char → Option (Int × List Char)
  | e :: rest =>
    if e == 'e' || e == 'E' then
      let (negative, rest) := match rest with
        | '-' :: r => (true, r)
        | '+' :: r => (false, r)
        | r => (false, r)
      let ds := rest.takeWhile Char.isDigit
      if ds.isEmpty then none
      else
        let n : Int := digitsNat ds
        some (if negative then -n else n, rest.dropWhile Char.isDigit)
    else none
  | [] => none

/-- A number without its sign. -/
def readUnsigned (negative : Bool) (s : List Char) : Option (Number × List Char) :=
  let whole := s.takeWhile Char.isDigit
  let rest := s.dropWhile Char.isDigit
  if whole.isEmpty then none
  else
    let (fraction, rest) := match rest with
      | '.' :: r =>
        if (r.takeWhile Char.isDigit).isEmpty then ([], rest)
        else (r.takeWhile Char.isDigit, r.dropWhile Char.isDigit)
      | r => ([], r)
    match readExponent? rest with
    | some (e, rest) =>
      some (.ofDecimal negative ⟨digitsNat (whole ++ fraction), e - fraction.length⟩, rest)
    | none =>
      if fraction.isEmpty then
        let n : Int := digitsNat whole
        some (.int (if negative then -n else n), rest)
      else
        some (.ofDecimal negative ⟨digitsNat (whole ++ fraction), -(fraction.length : Int)⟩, rest)

def readNumber : List Char → Option (Number × List Char)
  | '-' :: rest => readUnsigned true rest
  | s => readUnsigned false s

mutual

/-- A value at the start of the text, and what follows it. -/
def readValue : Nat → List Char → Option (Value × List Char)
  | 0, _ => none
  | fuel + 1, s =>
    match skipBlanks s with
    | 'n' :: 'u' :: 'l' :: 'l' :: rest => some (.null, rest)
    | 't' :: 'r' :: 'u' :: 'e' :: rest => some (.bool true, rest)
    | 'f' :: 'a' :: 'l' :: 's' :: 'e' :: rest => some (.bool false, rest)
    | '"' :: rest => (readString [] rest).map fun (t, r) => (.text t, r)
    | '[' :: rest =>
      match skipBlanks rest with
      | ']' :: rest => some (.list [], rest)
      | rest => (readList fuel rest).map fun (xs, r) => (.list xs, r)
    | '\x7b' :: rest =>
      match skipBlanks rest with
      | '\x7d' :: rest => some (.mapping [], rest)
      | rest => (readFields fuel rest).map fun (fs, r) => (.mapping (Assoc.ofList fs), r)
    | s => (readNumber s).map fun (n, r) => (.number n, r)

/-- The entries of a list up to its closing bracket. -/
def readList : Nat → List Char → Option (List Value × List Char)
  | 0, _ => none
  | fuel + 1, s => do
    let (v, rest) ← readValue fuel s
    match skipBlanks rest with
    | ',' :: rest =>
      let (vs, rest) ← readList fuel rest
      return (v :: vs, rest)
    | ']' :: rest => return ([v], rest)
    | _ => none

/-- The fields of a mapping up to its closing bracket. -/
def readFields : Nat → List Char → Option (Fields × List Char)
  | 0, _ => none
  | fuel + 1, s =>
    match skipBlanks s with
    | '"' :: rest => do
      let (k, rest) ← readString [] rest
      match skipBlanks rest with
      | ':' :: rest =>
        let (v, rest) ← readValue fuel rest
        match skipBlanks rest with
        | ',' :: rest =>
          let (fs, rest) ← readFields fuel rest
          return ((.text k, v) :: fs, rest)
        | '\x7d' :: rest => return ([(.text k, v)], rest)
        | _ => none
      | _ => none
    | _ => none

end

/-- The value that a text holds, blanks around it aside. -/
def parse? (s : String) : Option Value :=
  match readValue (s.length + 1) s.toList with
  | some (v, rest) => if (skipBlanks rest).isEmpty then some v else none
  | none => none

/-- A character inside a string. -/
def escape (c : Char) : String :=
  if c == '"' then "\\\""
  else if c == '\\' then "\\\\"
  else if c.toNat < 32 then
    "\\u00" ++ (if c.toNat < 16 then "0" else "") ++ String.ofList (Nat.toDigits 16 c.toNat)
  else String.singleton c

/-- A string with its quotes. -/
def string (s : String) : String := "\"" ++ String.join (s.toList.map escape) ++ "\""

/-- A scalar as the key of a field; only texts can be keys, so the others stand as texts. -/
def keyText : Scalar → String
  | .null => "null"
  | .bool true => "true"
  | .bool false => "false"
  | .number n => n.text
  | .text s => s

/-- The JSON text of a scalar. -/
def renderScalar : Scalar → String
  | .text s => string s
  | s => keyText s

mutual

/-- A text with the JSON text of a value after it. -/
def write (text : String) : Value → String
  | .scalar s => text ++ renderScalar s
  | .list xs => writeList (text ++ "[") xs ++ "]"
  | .mapping fs => writeFields (text ++ "\x7b") fs ++ "\x7d"

/-- A text with the entries of a list after it. -/
def writeList (text : String) : List Value → String
  | [] => text
  | [v] => write text v
  | v :: rest => writeList (write text v ++ ", ") rest

/-- A text with the fields of a mapping after it. -/
def writeFields (text : String) : List (Scalar × Value) → String
  | [] => text
  | [(k, v)] => write (text ++ string (keyText k) ++ ": ") v
  | (k, v) :: rest => writeFields (write (text ++ string (keyText k) ++ ": ") v ++ ", ") rest

end

/-- The JSON text of a value. -/
def render (v : Value) : String := write "" v

end Json

end Roster
