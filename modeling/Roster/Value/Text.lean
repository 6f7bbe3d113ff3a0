import Roster.Value
import Roster.Number.Text
import Roster.Text.Printable

/-!
# Text of values in messages

A text stands in a message as it is. Inside a list or a mapping, and wherever a message quotes it,
it stands between single quotes, or between double quotes when it holds a single quote and no
double one; a backslash, the quote itself and every character that is not printable is escaped.
-/

namespace Roster

/-- `n` in base sixteen with at least `width` digits. -/
def hexText (width n : Nat) : String :=
  let ds := Nat.toDigits 16 n
  String.ofList (List.replicate (width - ds.length) '0' ++ ds)

/-- A character between the given quotes. -/
def escapeChar (quote c : Char) : String :=
  if c == '\\' then "\\\\"
  else if c == quote then String.ofList ['\\', c]
  else if c == '\n' then "\\n"
  else if c == '\r' then "\\r"
  else if c == '\t' then "\\t"
  else if isPrintable c then String.singleton c
  else if c.toNat < 0x100 then "\\x" ++ hexText 2 c.toNat
  else if c.toNat < 0x10000 then "\\u" ++ hexText 4 c.toNat
  else "\\U" ++ hexText 8 c.toNat

/-- The quotes that a text is put between. -/
def quoteFor (s : String) : Char :=
  if s.contains '\'' && !s.contains '"' then '"' else '\''

/-- A text between quotes. -/
def quoted (s : String) : String :=
  let q := quoteFor s
  String.singleton q ++ String.join (s.toList.map (escapeChar q)) ++ String.singleton q

/-- A scalar as part of a value. -/
def Scalar.inner : Scalar → String
  | null => "None"
  | bool true => "True"
  | bool false => "False"
  | number n => n.text
  | text s => quoted s

namespace Value

mutual

/-- A value as part of another one. -/
def inner : Value → String
  | scalar s => s.inner
  | list xs => "[" ++ innerList xs ++ "]"
  | mapping fs => "\x7b" ++ innerFields fs ++ "\x7d"

/-- Entries, separated by commas. -/
def innerList : List Value → String
  | [] => ""
  | [v] => v.inner
  | v :: rest => v.inner ++ ", " ++ innerList rest

/-- Fields, separated by commas. -/
def innerFields : List (Scalar × Value) → String
  | [] => ""
  | [(k, v)] => k.inner ++ ": " ++ v.inner
  | (k, v) :: rest => k.inner ++ ": " ++ v.inner ++ ", " ++ innerFields rest

end

/-- A value as it stands in a message. -/
def display : Value → String
  | text s => s
  | v => v.inner

@[simp] theorem display_text (s : String) : (text s).display = s := rfl

instance : ToString Value := ⟨display⟩

end Value

/-- A scalar as it stands in a message. -/
def Scalar.display (s : Scalar) : String := (Value.scalar s).display

instance : ToString Scalar := ⟨Scalar.display⟩

end Roster
