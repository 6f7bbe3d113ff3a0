import Roster.Number

/-!
# Decimal text of numbers

An integer is written in full. A binary64 value is written with the fewest digits that read back
as it, the nearest to it of those and of two equally near the one that ends in an even digit;
positional from `10 ^ -4` up to but not including `10 ^ 16` and always with a point, in scientific
notation with an exponent of at least two digits elsewhere.

Reading takes a decimal to the binary64 value nearest to it.
-/

namespace Roster

/-- A decimal `digits * 10 ^ scale`. -/
structure Decimal where
  digits : Nat
  scale : Int
deriving DecidableEq

namespace Decimal

/-- The exact value. -/
def toRat (d : Decimal) : Rat :=
  mkRat (d.digits * Nat.pow 10 d.scale.toNat) (Nat.pow 10 (-d.scale).toNat)

/-- The largest `e` with `10 ^ e ≤ n / d`, for positive `n` and `d`. -/
def exponent (n d : Nat) : Int :=
  let e : Int := (n.repr.length : Int) - d.repr.length
  if d * Nat.pow 10 e.toNat ≤ n * Nat.pow 10 (-e).toNat then e else e - 1

/-- The two neighbours of `n / d` among the multiples of `10 ^ scale`, the nearer one first, and of
two equally near the one with an even last digit. -/
def neighbours (n d : Nat) (scale : Int) : List Decimal :=
  let num := n * Nat.pow 10 (-scale).toNat
  let den := d * Nat.pow 10 scale.toNat
  let below : Decimal := ⟨num / den, scale⟩
  let above : Decimal := ⟨num / den + 1, scale⟩
  let twice := 2 * (num % den)
  if twice < den ∨ twice = den ∧ below.digits % 2 = 0 then [below, above] else [above, below]

/-- The first decimal that reads back as `q`, on ever finer grids. Seventeen digits always do. -/
def shortestFrom (q : Rat) (e : Int) : Nat → Decimal
  | 0 => ⟨0, 0⟩
  | more + 1 =>
    let scale := e - (16 - more : Nat)
    match (neighbours q.num.natAbs q.den scale).find? (fun d => Binary64.nearest d.toRat = q) with
    | some d => d
    | none => shortestFrom q e more

/-- The shortest decimal that reads back as the positive binary64 value `q`. -/
def shortest (q : Rat) : Decimal :=
  shortestFrom q (exponent q.num.natAbs q.den) 17

/-- The digits without zeros at the end; the value is kept. -/
def stripZeros (s : List Char) : List Char := (s.reverse.dropWhile (· == '0')).reverse

/-- Text of a positive decimal: where the point stands depends on its size alone. -/
def text (d : Decimal) : String :=
  let all := d.digits.repr.toList
  let point : Int := d.scale + all.length
  let ds := stripZeros all
  if point ≤ -4 ∨ 16 < point then
    let e := point - 1
    let mantissa := match ds with
      | c :: rest@(_ :: _) => c :: '.' :: rest
      | short => short
    let digits := e.natAbs.repr
    let padded := if digits.length < 2 then "0" ++ digits else digits
    String.ofList mantissa ++ (if e < 0 then "e-" else "e+") ++ padded
  else if point ≤ 0 then
    "0." ++ String.ofList (List.replicate (-point).toNat '0' ++ ds)
  else
    let whole := ds.take point.toNat
    let fraction := ds.drop point.toNat
    String.ofList (whole ++ List.replicate (point.toNat - whole.length) '0') ++ "." ++
      (if fraction.isEmpty then "0" else String.ofList fraction)

end Decimal

namespace Number

/-- The text of a number in messages and in documents. -/
def text : Number → String
  | int n => toString n
  | minusZero => "-0.0"
  | real q =>
    if q = 0 then "0.0"
    else if q < 0 then "-" ++ (Decimal.shortest (-q)).text
    else (Decimal.shortest q).text

instance : ToString Number := ⟨text⟩

/-- The binary64 value nearest to a signed decimal. -/
def ofDecimal (negative : Bool) (d : Decimal) : Number :=
  ofReal negative (if negative then -d.toRat else d.toRat)

end Number

end Roster
