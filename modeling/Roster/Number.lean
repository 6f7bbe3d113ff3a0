import Roster.Number.Rounding

/-!
# Numbers of a document

A number is an integer of any size or a binary64 value, and among the latter there are two zeros.
Arithmetic on two integers is exact; as soon as one operand is a binary64 value the result is one
too, and an integer operand is rounded before it takes part. An integer beyond the range of binary64
cannot take part: then there is no result. Comparison is exact for every mixture and takes the two
zeros for one.

Three binary64 values are left out: NaN and the two infinities. A document holds none of them, and
no result is one: a sum, difference or product of binary64 values beyond the largest of them, which
would overflow to an infinity, is kept as the rational that it rounds to. So what is proved of
numbers is proved of finite ones, and as long as no result overflows.
-/

namespace Roster

/-- An integer of any size, or a binary64 value kept as the rational that it is. -/
inductive Number where
  | int (n : Int)
  | real (q : Rat)
  /-- The binary64 zero with a minus sign. -/
  | minusZero
deriving DecidableEq, Inhabited

namespace Number

instance (n : Nat) : OfNat Number n := ⟨.int n⟩

/-- The number as an exact rational. -/
def toRat : Number → Rat
  | int n => n
  | real q => q
  | minusZero => 0

/-- Whether the number has a minus sign. -/
def isNegative : Number → Bool
  | int n => n < 0
  | real q => q < 0
  | minusZero => true

/-- The binary64 value nearest to a rational; a zero takes the given sign. -/
def ofReal (negative : Bool) (q : Rat) : Number :=
  let v := Binary64.nearest q
  if v = 0 && negative then minusZero else real v

/-- The number as a binary64 value; there is none for an integer beyond their range. -/
def toReal? : Number → Option Rat
  | int n => if n.natAbs < Binary64.bound then some (Binary64.nearest n) else none
  | real q => some q
  | minusZero => some 0

/-- Exact on integers, otherwise rounded once, with the given sign for a zero. -/
def lift (onInt : Int → Int → Int) (onRat : Rat → Rat → Rat) (negative : Bool) :
    Number → Number → Option Number
  | int a, int b => some (int (onInt a b))
  | a, b => do return ofReal negative (onRat (← a.toReal?) (← b.toReal?))

/-- The sum. -/
def add (a b : Number) : Option Number := lift (· + ·) (· + ·) (a = minusZero && b = minusZero) a b

/-- The difference. -/
def sub (a b : Number) : Option Number :=
  lift (· - ·) (· - ·) (a = minusZero && !b.isNegative) a b

/-- The product. -/
def mul (a b : Number) : Option Number := lift (· * ·) (· * ·) (a.isNegative != b.isNegative) a b

instance : LE Number := ⟨fun a b => a.toRat ≤ b.toRat⟩
instance : LT Number := ⟨fun a b => a.toRat < b.toRat⟩
instance (a b : Number) : Decidable (a ≤ b) := inferInstanceAs (Decidable (a.toRat ≤ b.toRat))
instance (a b : Number) : Decidable (a < b) := inferInstanceAs (Decidable (a.toRat < b.toRat))

theorem le_iff {a b : Number} : a ≤ b ↔ a.toRat ≤ b.toRat := Iff.rfl

theorem lt_iff {a b : Number} : a < b ↔ a.toRat < b.toRat := Iff.rfl

theorem int_mul_int (a b : Int) : mul (int a) (int b) = some (int (a * b)) := rfl

/-- The integer part, toward zero. -/
def truncate : Number → Int
  | int n => n
  | real q => q.num.tdiv q.den
  | minusZero => 0

/-- Whether the number is zero. -/
def isZero (a : Number) : Bool := a.toRat = 0

/-- Equal in value, whatever the form: `1` and `1.0` are the same number. -/
def same (a b : Number) : Bool := a.toRat = b.toRat

end Number

end Roster
