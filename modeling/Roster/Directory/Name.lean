/-!
# Distinguished names

A distinguished name is a sequence of components `attribute=value`, separated by commas or plus
signs; a backslash escapes the character after it, or stands before two hexadecimal digits. Reading
a name cuts it into pieces at separators that are not escaped and followed by a further component,
splits every piece at its first equals sign, and then checks the components from left to right.
Values keep the spelling they have in the name.

* `unescaped`: which characters of a text are not escaped. The first character never separates
  anything, and a backslash at the very start does not escape another backslash.
* `DistinguishedName.pieces`: the pieces of a name, each shorter name a shorter problem.
* `Component.check`: what an attribute and a value may consist of.
-/

namespace Roster

/-- Why a text is no distinguished name. -/
inductive NameFault where
  | empty
  | noAttribute
  | attributeCharacter (c : Char)
  | attributeStart (c : Char)
  | noValue (piece : String)
  | hexCharacter (c : Char)
  | leadingSpace
  | trailingSpace
  | special (c : Char)
  | escape (c : Char)
  | unfinished
deriving DecidableEq

/-- The words of a fault. -/
def NameFault.text : NameFault → String
  | empty => "empty dn"
  | noAttribute => "attribute type not present"
  | attributeCharacter c => s!"character '{c}' not allowed in attribute type"
  | attributeStart c => s!"character '{c}' not allowed as first character of attribute type"
  | noValue piece => s!"unable to validate attribute value in {piece}"
  | hexCharacter c => s!"character {c} not allowed in hex representation of attribute value"
  | leadingSpace => "SPACE must be escaped as leading character of attribute value"
  | trailingSpace => "SPACE must be escaped as trailing character of attribute value"
  | special c => s!"special character {c} must be escaped"
  | escape c => s!"invalid escaped character {c}"
  | unfinished => "invalid final character"

/-- Whether each further character is unescaped, after an even or odd number of backslashes. -/
def unescapedAfter (odd : Bool) : List Char → List Bool
  | [] => []
  | c :: rest => (!odd) :: unescapedAfter (c == '\\' && !odd) rest

/-- Whether each character of a text is unescaped. -/
def unescaped : List Char → List Bool
  | [] => []
  | [_] => [false]
  | c :: d :: rest => false :: (c != '\\') :: unescapedAfter (d == '\\') rest

/-- One component of a distinguished name. -/
structure Component where
  /-- The name of an attribute. -/
  key : String
  value : String
deriving DecidableEq, Inhabited

namespace DistinguishedName

/-- The positions at which a character stands unescaped, rising. -/
def positions (s : List Char) (c : Char) : List Nat :=
  ((s.zip (unescaped s)).zipIdx.filter fun p => p.1.1 == c && p.1.2).map (·.2)

/-- The first unescaped position of a character from `start` on, in what stands from position `i` on
after an even or odd number of backslashes. -/
def firstAfter (c : Char) (start : Nat) (odd : Bool) (i : Nat) : List Char → Option Nat
  | [] => none
  | d :: rest =>
    if d == c && !odd && start ≤ i then some i
    else firstAfter c start (d == '\\' && !odd) (i + 1) rest

/-- The first unescaped position of a character from `start` on. -/
def firstFrom (s : List Char) (c : Char) (start : Nat) : Option Nat :=
  match s with
  | [] => none
  | [_] => none
  | b :: d :: rest =>
    if d == c && b != '\\' && start ≤ 1 then some 1 else firstAfter c start (d == '\\') 2 rest

/-- The last unescaped position of a character from `start` on and before `stop`. -/
def lastBetween (s : List Char) (c : Char) (start stop : Nat) : Option Nat :=
  ((positions (s.take stop) c).filter (start ≤ ·)).getLast?

/-- The separator that ends the first piece, given the first separator of its kind: the last one
before the equals sign of the component that follows. -/
def cut (s : List Char) (separator : Char) (first : Nat) : Option Nat := do
  let equals ← firstFrom s '=' (first + 1)
  if first + 1 < equals then lastBetween s separator first equals else none

/-- The cut at a plus sign that comes before any comma. -/
def plusCut (s : List Char) : Option Nat := do
  let plus ← firstFrom s '+' 0
  if (firstFrom s ',' 0).all (plus < ·) then cut s '+' plus else none

/-- The cut at a comma. -/
def commaCut (s : List Char) : Option Nat := (firstFrom s ',' 0).bind (cut s ',')

/-- A piece of a name and the separator after it. -/
structure Piece where
  chars : List Char
  separator : List Char

/-- The first piece of a name. -/
def nextPiece (s : List Char) : Piece :=
  match plusCut s with
  | some i => ⟨s.take i, ['+']⟩
  | none => match commaCut s with
    | some i => ⟨s.take i, [',']⟩
    | none => ⟨s, []⟩

/-- Adds a piece to those before it, the last of them first. A piece without an equals sign belongs
to the value before it. -/
def addPiece (p : Piece) : List Piece → List Piece
  | [] => [p]
  | last :: before =>
    if (firstFrom p.chars '=' 0).isSome then p :: last :: before
    else ⟨last.chars ++ last.separator ++ p.chars, p.separator⟩ :: before

/-- The pieces of a name, after those read before (the last of them first). -/
def pieces (before : List Piece) (s : List Char) : List Piece :=
  match h : s with
  | [] => before.reverse
  | _ :: _ =>
    let p := nextPiece s
    pieces (addPiece p before) (s.drop (p.chars.length + 1))
termination_by s.length
decreasing_by
  rw [List.length_drop, h, List.length_cons]
  omega

/-- The parts of a text around its first equals sign that no backslash precedes. A sign at the very
start ends the search. -/
def splitEquals (before : List Char) : List Char → Option (List Char × List Char)
  | [] => none
  | '=' :: rest =>
    match before with
    | [] => none
    | '\\' :: _ => splitEquals ('=' :: before) rest
    | _ => some (before.reverse, rest)
  | c :: rest => splitEquals (c :: before) rest

/-- The component that a piece spells, without an attribute where it has no equals sign. -/
def component (p : Piece) : Component :=
  match splitEquals [] p.chars with
  | some (key, value) => ⟨String.ofList key, String.ofList value⟩
  | none => ⟨"", String.ofList p.chars⟩

end DistinguishedName

/-! ## What components may consist of -/

def isHexDigit (c : Char) : Bool :=
  c.isDigit || ('a' ≤ c && c ≤ 'f') || ('A' ≤ c && c ≤ 'F')

/-- How a value is being read. -/
inductive ValueState where
  | plain
  /-- After a backslash. -/
  | escaped
  /-- After a backslash and one hexadecimal digit. -/
  | hex
deriving DecidableEq

/-- The characters that have to be escaped in a value. -/
def specialChars : List Char := ['"', '#', '+', ',', ';', '<', '=', '>', '\x00']

/-- Reads one character of a value. -/
def ValueState.step (state : ValueState) (c : Char) : Except NameFault ValueState :=
  match state with
  | plain =>
    if c == '\\' then .ok escaped
    else if specialChars.contains c then .error (.special c)
    else .ok plain
  | escaped =>
    if isHexDigit c then .ok hex
    else if c == ' ' || c == '\\' || specialChars.contains c then .ok plain
    else .error (.escape c)
  | hex => if isHexDigit c then .ok plain else .error (.escape c)

namespace Component

/-- Checks the name of an attribute: letters, digits and hyphens, a letter first. The name of a
global identifier is allowed besides. -/
def checkKey (key : String) : Except NameFault Unit :=
  if key == "<GUID" then .ok ()
  else
    match key.toList with
    | [] => .error .noAttribute
    | first :: rest =>
      match (first :: rest).find? fun c => !(c.isAlphanum || c == '-') with
      | some c => .error (.attributeCharacter c)
      | none => if first.isAlpha then .ok () else .error (.attributeStart first)

/-- Checks the value of a piece: no blanks at its ends, and special characters only when escaped. -/
def checkValue (piece value : String) : Except NameFault Unit :=
  match value.toList with
  | [] => .error (.noValue piece)
  | '#' :: _ => .error (.hexCharacter '#')
  | ' ' :: _ => .error .leadingSpace
  | cs =>
    if value.endsWith " " && !value.endsWith "\\ " then .error .trailingSpace
    else do
      if (← cs.foldlM ValueState.step .plain) = .plain then return ()
      throw .unfinished

/-- Checks the component that a piece spells. -/
def check (piece : String) (c : Component) : Except NameFault Unit := do
  checkKey c.key
  checkValue piece c.value

end Component

/-- The component that a piece spells, checked. -/
def DistinguishedName.readPiece (p : Piece) : Except NameFault Component := do
  let c := component p
  Component.check (String.ofList p.chars) c
  return c

/-- The components of a distinguished name. -/
def DistinguishedName.parse (name : String) : Except NameFault (List Component) :=
  match pieces [] name.toList with
  | [] => .error .empty
  | ps => ps.mapM readPiece

end Roster
