/-!
# Rounding to binary64

A real number of a document is a binary64 value, kept as the rational that it is. The sum,
difference or product of two such values is the exact one, rounded once by `Binary64.nearest`:
to the nearest value with 53 significant bits and a last bit not below `2 ^ -1074`, a half going
to the even neighbour. There is no largest value here, so rounding never overflows to an infinity;
`bound` says from where on a whole number has no binary64 value.
-/

namespace Roster

/-- `n / d` to the nearest natural number, a half to the even one. -/
def roundDiv (n d : Nat) : Nat :=
  let q := n / d
  let r := 2 * (n % d)
  if r < d then q else if d < r then q + 1 else q + q % 2

/-- What `d` divides is not rounded. -/
theorem roundDiv_mul_left (m d : Nat) (h : 0 < d) : roundDiv (m * d) d = m := by
  simp [roundDiv, h]

namespace Binary64

/-- The largest `e` with `2 ^ e ≤ n / d`, for positive `n` and `d`. -/
def exponent (n d : Nat) : Int :=
  let e : Int := (n.log2 : Int) - d.log2
  if d * Nat.pow 2 e.toNat ≤ n * Nat.pow 2 (-e).toNat then e else e - 1

/-- The weight of the last bit of the value nearest to `n / d`, as an exponent of two. -/
def lastBit (n d : Nat) : Int := max (exponent n d - 52) (-1074)

/-- The binary64 value nearest to `q`, a half to the even one. -/
def nearest (q : Rat) : Rat :=
  let n := q.num.natAbs
  let e := lastBit n q.den
  let m := roundDiv (n * Nat.pow 2 (-e).toNat) (q.den * Nat.pow 2 e.toNat)
  let v := mkRat (m * Nat.pow 2 e.toNat) (Nat.pow 2 (-e).toNat)
  if q = 0 then 0 else if q < 0 then -v else v

/-- The least natural number that rounds beyond the largest binary64 value. -/
def bound : Nat := Nat.pow 2 1024 - Nat.pow 2 970

theorem nearest_zero : nearest 0 = 0 := rfl

end Binary64

end Roster
