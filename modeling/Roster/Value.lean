import Roster.Assoc
import Roster.Scalar

/-!
# Document values

A configuration, a store snapshot and the properties of a principal are documents: trees of
scalars, lists and mappings. Where a document comes straight from a user nothing about its shape is
known, and the functions here say how a value is understood: `truthy` for switches, `number?` for
amounts, `scalar?` for what can be a key, `field?` for sections. `same` compares values.
-/

namespace Roster

/-- A value of a document. -/
inductive Value where
  | scalar (s : Scalar)
  | list (xs : List Value)
  | mapping (fields : List (Scalar × Value))
deriving Inhabited

/-- Named values in insertion order. -/
abbrev Fields := Assoc Scalar Value

namespace Value

@[match_pattern] abbrev null : Value := scalar .null

@[match_pattern] abbrev bool (b : Bool) : Value := scalar (.bool b)

@[match_pattern] abbrev number (n : Number) : Value := scalar (.number n)

@[match_pattern] abbrev text (s : String) : Value := scalar (.text s)

mutual

/-- Whether two values are the same: scalars that stand for the same thing, lists of the same
items in order, mappings of the same keys to the same values in any order. -/
def same : Value → Value → Bool
  | scalar a, scalar b => a == b
  | list xs, list ys => sameItems xs ys
  | mapping fs, mapping gs => fs.length == gs.length && sameFields gs fs
  | _, _ => false

/-- Whether two lists have the same items. -/
def sameItems : List Value → List Value → Bool
  | [], [] => true
  | x :: xs, y :: ys => same x y && sameItems xs ys
  | _, _ => false

/-- Whether a mapping has all the given fields. -/
def sameFields (gs : List (Scalar × Value)) : List (Scalar × Value) → Bool
  | [] => true
  | (k, v) :: rest =>
    (match gs.lookup k with
      | some w => same v w
      | none => false) && sameFields gs rest

end

instance : BEq Value := ⟨same⟩

@[simp] theorem scalar_beq_scalar (a b : Scalar) : (scalar a == scalar b) = (a == b) := by
  show same (scalar a) (scalar b) = (a == b)
  rw [same]

/-- An empty, zero or absent value counts as false, any other as true. -/
def truthy : Value → Bool
  | null => false
  | bool b => b
  | number n => !n.isZero
  | text s => s != ""
  | list xs => !xs.isEmpty
  | mapping fs => !fs.isEmpty

/-- The value, or another one in place of a value that counts as false. -/
def orElse (v other : Value) : Value := if v.truthy then v else other

/-- A number; a truth value counts as one or zero. -/
def number? : Value → Option Number
  | scalar s => s.number?
  | _ => none

def text? : Value → Option String
  | text s => some s
  | _ => none

/-- Scalars can be members of a set and keys of a mapping; lists and mappings cannot. -/
def scalar? : Value → Option Scalar
  | scalar s => some s
  | _ => none

def list? : Value → Option (List Value)
  | list xs => some xs
  | _ => none

def mapping? : Value → Option Fields
  | mapping fs => some fs
  | _ => none

/-- A field of a mapping; other values have none. -/
def field? (v : Value) (key : String) : Option Value :=
  v.mapping?.bind fun fs => fs.lookup (.text key)

def isMapping : Value → Bool
  | mapping _ => true
  | _ => false

def isList : Value → Bool
  | list _ => true
  | _ => false

/-- What a walk over the value meets: the entries of a list, the keys of a mapping, the
characters of a text. Other values cannot be walked. -/
def items? : Value → Option (List Value)
  | list xs => some xs
  | mapping fs => some (fs.map fun f => scalar f.1)
  | text s => some (s.toList.map fun c => text (String.singleton c))
  | _ => none

/-- An optional value, absent written as null. -/
def ofOption {α : Type} (f : α → Value) : Option α → Value
  | none => null
  | some a => f a

def int (n : Int) : Value := number (.int n)

/-- A list of texts. -/
def texts (xs : List String) : Value := list (xs.map text)

end Value

end Roster
