import Roster.Journal

/-!
# Thresholds

A threshold lets the log lines through that are severe enough. Settings name it, in upper or lower
case; a setting that names none leaves the standard one in place.
-/

namespace Roster

/-- The least severity that passes; without one everything does. -/
abbrev Threshold := Option Level

namespace Threshold

/-- The name of a threshold. -/
def name : Threshold → String
  | none => "NOTSET"
  | some l => l.name

/-- Whether lines of a level pass. -/
def admits (t : Threshold) (l : Level) : Bool := t.all fun least => least.rank ≤ l.rank

/-- The names of thresholds, two levels having a second one. -/
def named : List (String × Threshold) :=
  ("NOTSET", none) :: ("WARN", some .warning) :: ("FATAL", some .critical)
    :: Level.all.map fun l => (l.name, some l)

/-- The upper-case form of a character, where it is made of ASCII letters; the other characters
stay. -/
def upperForm (c : Char) : List Char :=
  match c with
  | 'ı' => ['I']
  | 'ſ' => ['S']
  | 'ß' => ['S', 'S']
  | 'ﬀ' => ['F', 'F']
  | 'ﬁ' => ['F', 'I']
  | 'ﬂ' => ['F', 'L']
  | 'ﬃ' => ['F', 'F', 'I']
  | 'ﬄ' => ['F', 'F', 'L']
  | 'ﬅ' => ['S', 'T']
  | 'ﬆ' => ['S', 'T']
  | c => [c.toUpper]

/-- A text with its letters in upper case, as far as names of thresholds are concerned. -/
def upper (s : String) : String := String.ofList (s.toList.flatMap upperForm)

/-- The threshold that a text names, whatever its case. -/
def ofName? (s : String) : Option Threshold := named.lookup (upper s)

/-- The name of the plain layout of log lines, and the layout. It is no threshold, but it cannot be
used to mean the standard one either. -/
def layout : String × String := ("BASIC_FORMAT", "%(levelname)s:%(name)s:%(message)s")

/-- The name of the table of layouts, which cannot be used either. -/
def layouts : String := "_STYLES"

/-- The threshold of a setting, or the standard one where it names none. -/
def ofSetting (v : Value) (standard : Level) : Except Failure Threshold :=
  match v with
  | .text s =>
    if upper s = layout.1 then .error (.unknownLevel (quoted layout.2))
    else if upper s = layouts then .error .malformed
    else .ok ((ofName? s).getD (some standard))
  | _ => .ok (some standard)

end Threshold

end Roster
