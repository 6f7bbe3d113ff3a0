import Roster.Failure
import Roster.NameSet
import Roster.Text.Blank
import Roster.Text.Digit

/-!
# Conversions

A setting may be written in more forms than the one it is used in. An integer may be a number (its
integer part counts), a truth value, or a text of decimal digits with a sign, blanks around it and
single underscores between digits; a text of too many digits is refused. A mapping may be a list of
pairs. What is to be a key has to be a scalar.
-/

namespace Roster

/-- Whether a character may stand around the digits of an integer. Of the blanks with a code point
below 128 the separators of records and fields may not. -/
def isPadding (c : Char) : Bool := isBlank c && !(28 ≤ c.toNat && c.toNat ≤ 31)

/-- The values of the digits at the start of a text, and what follows them. There may be single
underscores between them, but none that is not followed by a digit. -/
def digitRun : List Char → Option (List Nat × List Char)
  | '_' :: c :: rest => do
    let d ← digitValue? c
    let (ds, after) ← digitRun rest
    return (d :: ds, after)
  | c :: rest =>
    match digitValue? c with
    | some d => (digitRun rest).map fun (ds, after) => (d :: ds, after)
    | none => if c = '_' then none else some ([], c :: rest)
  | [] => some ([], [])

/-- The digits of a text that starts with one, and what follows them. -/
def digits? : List Char → Option (List Nat × List Char)
  | [] => none
  | c :: rest => if (digitValue? c).isSome then digitRun (c :: rest) else none

/-- The sign and the digits of an integer, with the padding taken off, and what follows them. -/
def signedDigits? (s : List Char) : Option (Bool × List Nat × List Char) :=
  match trimWhile isPadding s with
  | '-' :: rest => (digits? rest).map (true, ·)
  | '+' :: rest => (digits? rest).map (false, ·)
  | rest => (digits? rest).map (false, ·)

/-- The most digits that the text of an integer may have. -/
def maxDigits : Nat := 4300

/-- The integer that a text stands for. Too many digits are told before anything that may follow
them. -/
def integerText (s : String) : Except Failure Int :=
  match signedDigits? s.toList with
  | none => .error (.notAnInteger s)
  | some (negative, ds, after) =>
    if maxDigits < ds.length then .error (.tooManyDigits ds.length)
    else if !after.isEmpty then .error (.notAnInteger s)
    else
      let n : Nat := ds.foldl (fun n d => n * 10 + d) 0
      .ok (if negative then -(n : Int) else n)

namespace Value

/-- The value as an integer. -/
def toInteger : Value → Except Failure Int
  | number n => .ok n.truncate
  | bool b => .ok (if b then 1 else 0)
  | text s => integerText s
  | _ => .error .malformed

/-- The value as a scalar. -/
def toScalar : Value → Except Failure Scalar
  | scalar s => .ok s
  | _ => .error .malformed

/-- What a value stands for as a key. -/
def toKey : Value → Except Failure Key
  | scalar s => .ok s.key
  | _ => .error .malformed

@[simp] theorem toKey_text (s : String) : (text s).toKey = .ok (.text s) := rfl

/-- A value has a key if it is a scalar, and then that of the scalar. -/
theorem toKey_eq_ok_iff {v : Value} {k : Key} :
    v.toKey = .ok k ↔ ∃ s, v.toScalar = .ok s ∧ s.key = k := by
  cases v <;> simp [toKey, toScalar]

/-- What a walk over the value meets. -/
def toItems (v : Value) : Except Failure (List Value) :=
  match v.items? with
  | some items => .ok items
  | none => .error .malformed

/-- One pair of a list of pairs: any walk of two items whose first one is a scalar. -/
def toPair (index : Nat) (v : Value) : Except Failure (Scalar × Value) :=
  match v.items? with
  | none => .error .malformed
  | some [scalar k, x] => .ok (k, x)
  | some [_, _] => .error .malformed
  | some items => .error (.badPair index items.length)

/-- The pairs of a list, numbered from `index`. -/
def toPairs (index : Nat) : List Value → Except Failure (List (Scalar × Value))
  | [] => .ok []
  | v :: rest => do
    let p ← toPair index v
    return p :: (← toPairs (index + 1) rest)

/-- The value as a mapping. -/
def toMapping : Value → Except Failure Fields
  | mapping fs => .ok fs
  | v => do return Assoc.ofList (← toPairs 0 (← v.toItems))

theorem toMapping_mapping (fs : Fields) : (mapping fs).toMapping = .ok fs := rfl

/-- The value as a set of names. -/
def toNames (v : Value) : Except Failure NameSet := do
  return NameSet.ofList (← (← v.toItems).mapM toScalar)

/-- The value as a list of texts. -/
def toTexts (v : Value) : Except Failure (List String) := do
  (← v.toItems).mapM fun x => match x with
    | text s => .ok s
    | _ => .error .malformed

mutual

/-- Whether a value comes before another one, where the two have an order: texts by code point,
numbers by value, lists by the first items that differ. -/
def precedes? : Value → Value → Option Bool
  | text s, text t => some (s < t)
  | list xs, list ys => itemsPrecede? xs ys
  | v, w =>
    match v.number?, w.number? with
    | some m, some n => some (m < n)
    | _, _ => none

/-- Whether a list comes before another one, where the two have an order. -/
def itemsPrecede? : List Value → List Value → Option Bool
  | [], ys => some !ys.isEmpty
  | _ :: _, [] => some false
  | x :: xs, y :: ys => if x == y then itemsPrecede? xs ys else precedes? x y

end

/-- Items in increasing order; items that have no common order are a failure. -/
def ascending (items : List Value) : Except Failure (List Value) :=
  if items.length ≤ 1 then .ok items
  else if items.all fun v => items.all fun w => (precedes? v w).isSome then
    .ok (items.mergeSort fun v w => precedes? w v != some true)
  else .error .malformed

/-- The product of two values: of numbers, or of a text or list and how often it is repeated. -/
def times (v w : Value) : Except Failure Value :=
  match v, w with
  | scalar a, scalar b =>
    match a.number?, b.number? with
    | some m, some n =>
      match m.mul n with
      | some p => .ok (number p)
      | none => .error .overflow
    | some (.int n), none => repeated n w
    | none, some (.int n) => repeated n v
    | _, _ => .error .malformed
  | list _, scalar b =>
    match b.number? with
    | some (.int n) => repeated n v
    | _ => .error .malformed
  | scalar a, list _ =>
    match a.number? with
    | some (.int n) => repeated n w
    | _ => .error .malformed
  | _, _ => .error .malformed
where
  /-- A text or list several times in a row. -/
  repeated (n : Int) : Value → Except Failure Value
    | text s => .ok (text (String.join (List.replicate n.toNat s)))
    | list xs => .ok (list (List.replicate n.toNat xs).flatten)
    | _ => .error .malformed

/-- The time from one moment to another; only numbers are moments. -/
def minus (v w : Value) : Except Failure Number :=
  match v.number?, w.number? with
  | some m, some n =>
    match m.sub n with
    | some d => .ok d
    | none => .error .overflow
  | _, _ => .error .malformed

/-- The sum of two numbers, or two texts or lists one after the other. -/
def plus (v w : Value) : Except Failure Value :=
  match v, w with
  | text s, text t => .ok (text (s ++ t))
  | list xs, list ys => .ok (list (xs ++ ys))
  | v, w =>
    match v.number?, w.number? with
    | some m, some n =>
      match m.add n with
      | some d => .ok (number d)
      | none => .error .overflow
    | _, _ => .error .malformed

end Value

end Roster
