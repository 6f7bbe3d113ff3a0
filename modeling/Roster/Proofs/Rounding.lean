import Mathlib.Algebra.Order.Field.Power
import Mathlib.Algebra.Order.Field.Rat
import Mathlib.Tactic.NormNum
import Mathlib.Tactic.Ring
import Roster.Number

/-!
# Rounding twice

What rounding gives is a whole number up to `2 ^ 53` times a power of two not below `2 ^ -1074`
(`IsBinary64`), and such a value is not rounded again. So a product with one, which rounds its other
factor, leaves a number as it is that has a binary64 value (`Number.IsExact`).

* `nearest_eq_self`: a binary64 value is the one nearest to itself.
* `nearest_nearest`: rounding twice is rounding once.
* `Number.isExact_of_lt`: which numbers have a binary64 value for certain.
* `Number.IsExact.times_one`: the product of such a number with the binary64 value one.
-/

namespace Roster

namespace Binary64

variable {n d : Nat} {q : Rat} {e : Int}

/-! ## Powers of two -/

/-- A power of two as a quotient of two whole ones. -/
theorem two_pow_toNat (e : Int) : (2 : Rat) ^ e.toNat = 2 ^ e * 2 ^ (-e).toNat := by
  rw [← zpow_natCast, ← zpow_natCast, ← zpow_add₀ (by norm_num)]
  congr 1
  omega

/-- A comparison of whole numbers scaled by a power of two. -/
theorem two_zpow_mul_le_iff :
    (2 : Rat) ^ e * d ≤ n ↔ d * Nat.pow 2 e.toNat ≤ n * Nat.pow 2 (-e).toNat := by
  rw [← Nat.cast_le (α := Rat), Nat.pow_eq, Nat.pow_eq]
  push_cast
  rw [two_pow_toNat, ← mul_assoc, mul_le_mul_iff_left₀ (by positivity), mul_comm]

/-- An equation of whole numbers scaled by a power of two. -/
theorem scale_eq {m : Nat} (h : (n : Rat) = m * 2 ^ e * d) :
    n * Nat.pow 2 (-e).toNat = m * (d * Nat.pow 2 e.toNat) := by
  rw [← Nat.cast_inj (R := Rat), Nat.pow_eq, Nat.pow_eq]
  push_cast
  rw [two_pow_toNat e, h]
  ring

/-- The exponent is the one of the greatest power of two that is not above the quotient. -/
theorem exponent_spec (hn : 0 < n) (hd : 0 < d) :
    (2 : Rat) ^ exponent n d * d ≤ n ∧ (n : Rat) < 2 ^ (exponent n d + 1) * d := by
  have hnlow : (2 : Rat) ^ (n.log2 : Int) ≤ n := by
    rw [zpow_natCast]
    exact_mod_cast Nat.log2_self_le hn.ne'
  have hnhigh : (n : Rat) < 2 ^ ((n.log2 : Int) + 1) := by
    have : n < 2 ^ (n.log2 + 1) := Nat.lt_log2_self
    exact_mod_cast this
  have hdlow : (2 : Rat) ^ (d.log2 : Int) ≤ d := by
    rw [zpow_natCast]
    exact_mod_cast Nat.log2_self_le hd.ne'
  have hdhigh : (d : Rat) < 2 ^ ((d.log2 : Int) + 1) := by
    have : d < 2 ^ (d.log2 + 1) := Nat.lt_log2_self
    exact_mod_cast this
  unfold exponent
  dsimp only
  split
  · next h =>
    refine ⟨two_zpow_mul_le_iff.2 h, hnhigh.trans_le ?_⟩
    calc (2 : Rat) ^ ((n.log2 : Int) + 1)
        = 2 ^ ((n.log2 : Int) - d.log2 + 1) * 2 ^ (d.log2 : Int) := by
          rw [← zpow_add₀ (by norm_num)]; congr 1; omega
      _ ≤ 2 ^ ((n.log2 : Int) - d.log2 + 1) * d := by gcongr
  · next h =>
    rw [← two_zpow_mul_le_iff, not_le] at h
    refine ⟨?_, by rwa [Int.sub_add_cancel]⟩
    calc (2 : Rat) ^ ((n.log2 : Int) - d.log2 - 1) * d
        ≤ 2 ^ ((n.log2 : Int) - d.log2 - 1) * 2 ^ ((d.log2 : Int) + 1) := by gcongr
      _ = 2 ^ (n.log2 : Int) := by rw [← zpow_add₀ (by norm_num)]; congr 1; omega
      _ ≤ n := hnlow

/-! ## Binary64 values -/

/-- The rational is a binary64 value, if the greatest one is left out of account. -/
def IsBinary64 (q : Rat) : Prop :=
  ∃ (m : Nat) (e : Int), m ≤ 2 ^ 53 ∧ -1074 ≤ e ∧ |q| = m * 2 ^ e

theorem mkRat_eq_mul_zpow (m : Nat) (e : Int) :
    mkRat (m * Nat.pow 2 e.toNat) (Nat.pow 2 (-e).toNat) = m * 2 ^ e := by
  rw [Nat.pow_eq, Nat.pow_eq, Rat.mkRat_eq_div, div_eq_iff (by positivity)]
  push_cast
  rw [two_pow_toNat, mul_assoc]

theorem abs_mul_den (q : Rat) : |q| * q.den = q.num.natAbs := by
  rw [← abs_of_nonneg (a := (q.den : Rat)) (by positivity), ← abs_mul, Rat.mul_den_eq_num,
    Nat.cast_natAbs, Int.cast_abs]

/-- The significand that rounding gives. -/
def significand (q : Rat) : Nat :=
  let e := lastBit q.num.natAbs q.den
  roundDiv (q.num.natAbs * Nat.pow 2 (-e).toNat) (q.den * Nat.pow 2 e.toNat)

theorem nearest_eq (q : Rat) :
    nearest q = if q = 0 then 0 else
      if q < 0 then -((significand q : Rat) * 2 ^ lastBit q.num.natAbs q.den)
      else (significand q : Rat) * 2 ^ lastBit q.num.natAbs q.den := by
  unfold nearest
  rw [← mkRat_eq_mul_zpow]
  rfl

theorem abs_nearest (hq : q ≠ 0) :
    |nearest q| = (significand q : Rat) * 2 ^ lastBit q.num.natAbs q.den := by
  have hnonneg : 0 ≤ (significand q : Rat) * 2 ^ lastBit q.num.natAbs q.den := by positivity
  rw [nearest_eq, if_neg hq]
  split
  · rw [abs_neg, abs_of_nonneg hnonneg]
  · rw [abs_of_nonneg hnonneg]

theorem roundDiv_le {a b m : Nat} (h : a < m * b) : roundDiv a b ≤ m := by
  have hq : a / b < m := Nat.div_lt_of_lt_mul (by rwa [Nat.mul_comm])
  unfold roundDiv
  dsimp only
  split
  · omega
  · split <;> omega

/-- What rounding gives is a binary64 value. -/
theorem isBinary64_nearest (q : Rat) : IsBinary64 (nearest q) := by
  by_cases hq : q = 0
  · exact ⟨0, 0, by norm_num, by norm_num, by rw [hq, nearest_zero]; norm_num⟩
  refine ⟨significand q, lastBit q.num.natAbs q.den, roundDiv_le ?_, le_max_right _ _,
    abs_nearest hq⟩
  have hn : 0 < q.num.natAbs := Int.natAbs_pos.2 (Rat.num_ne_zero.2 hq)
  have hhigh := (exponent_spec hn q.den_pos).2
  generalize he : lastBit q.num.natAbs q.den = e
  have hexp : exponent q.num.natAbs q.den + 1 ≤ 53 + e := by
    unfold lastBit at he
    omega
  rw [← Nat.mul_assoc, ← not_le, ← two_zpow_mul_le_iff, not_le]
  calc (q.num.natAbs : Rat) < 2 ^ (exponent q.num.natAbs q.den + 1) * q.den := hhigh
    _ ≤ 2 ^ (53 + e) * q.den := by gcongr; norm_num
    _ = 2 ^ e * ((2 ^ 53 * q.den : Nat) : Rat) := by
      rw [zpow_add₀ (by norm_num)]
      push_cast
      ring

/-- A binary64 value is a whole number of last bits. -/
theorem exists_mul_lastBit (hq : q ≠ 0) (h : IsBinary64 q) :
    ∃ m : Nat, |q| = m * 2 ^ lastBit q.num.natAbs q.den := by
  obtain ⟨m, e, hm, he, habs⟩ := h
  generalize hlast : lastBit q.num.natAbs q.den = e'
  by_cases hle : e' ≤ e
  · refine ⟨m * 2 ^ (e - e').toNat, ?_⟩
    push_cast
    rw [habs, mul_assoc, ← zpow_natCast, ← zpow_add₀ (by norm_num)]
    congr 2
    omega
  · -- the last bit is above that of the value only where rounding would go to a power of two
    have hn : 0 < q.num.natAbs := Int.natAbs_pos.2 (Rat.num_ne_zero.2 hq)
    have hlow := (exponent_spec hn q.den_pos).1
    rw [← abs_mul_den, mul_le_mul_iff_left₀ (by exact_mod_cast q.den_pos)] at hlow
    have hexp : e + 53 ≤ exponent q.num.natAbs q.den := by
      unfold lastBit at hlast
      omega
    have hhigh : |q| ≤ 2 ^ (e + 53) := by
      rw [habs, zpow_add₀ (by norm_num), mul_comm]
      gcongr
      exact_mod_cast hm
    have hexp' : exponent q.num.natAbs q.den = e + 53 :=
      le_antisymm ((zpow_le_zpow_iff_right₀ (by norm_num)).1 (hlow.trans hhigh)) hexp
    rw [hexp'] at hlow
    refine ⟨2 ^ 52, ?_⟩
    have hlast' : e' = e + 1 := by
      unfold lastBit at hlast
      omega
    calc |q| = 2 ^ (e + 1 + 52) := by rw [le_antisymm hhigh hlow]; congr 1; omega
      _ = ((2 ^ 52 : Nat) : Rat) * 2 ^ e' := by
        rw [zpow_add₀ (by norm_num), hlast', mul_comm]
        norm_num

/-- A binary64 value is the one nearest to itself. -/
theorem nearest_eq_self (h : IsBinary64 q) : nearest q = q := by
  by_cases hq : q = 0
  · rw [hq, nearest_zero]
  obtain ⟨m, hm⟩ := exists_mul_lastBit hq h
  have hscale := scale_eq (n := q.num.natAbs) (d := q.den) (by rw [← hm, abs_mul_den])
  have habs : |nearest q| = |q| := by
    rw [abs_nearest hq, hm]
    congr 2
    unfold significand
    dsimp only
    rw [hscale, roundDiv_mul_left _ _ (by rw [Nat.pow_eq]; have := q.den_pos; positivity)]
  have hsign : nearest q = if q < 0 then -|nearest q| else |nearest q| := by
    rw [abs_nearest hq, nearest_eq, if_neg hq]
  rw [hsign, habs]
  split
  · next h => rw [abs_of_neg h, neg_neg]
  · next h => exact abs_of_nonneg (not_lt.1 h)

/-- Small integers are binary64 values. -/
theorem isBinary64_int {n : Int} (h : n.natAbs ≤ 2 ^ 53) : IsBinary64 n :=
  ⟨n.natAbs, 0, h, by norm_num, by rw [zpow_zero, mul_one, Nat.cast_natAbs, Int.cast_abs]⟩

/-- Rounding twice is rounding once. -/
theorem nearest_nearest (q : Rat) : nearest (nearest q) = nearest q :=
  nearest_eq_self (isBinary64_nearest q)

end Binary64

namespace Number

variable {a : Number} {q : Rat}

/-- What is kept as a binary64 value is one. -/
def Proper (a : Number) : Prop := ∀ q, a = .real q → Binary64.IsBinary64 q

/-- The number has a binary64 value: it stays as it is where it is taken as one. -/
def IsExact (a : Number) : Prop := a.toReal? = some a.toRat ∧ Binary64.IsBinary64 a.toRat

/-- Small integers have a binary64 value, and so has whatever is kept as one. -/
theorem isExact_of_lt (h : |a.toRat| < 2 ^ 53) (hproper : a.Proper) : a.IsExact := by
  cases a with
  | int n =>
    have hn : ((n.natAbs : Int) : Rat) < 2 ^ 53 := by
      rwa [Int.natCast_natAbs, Int.cast_abs]
    have hsmall : n.natAbs < 2 ^ 53 := by exact_mod_cast hn
    have hbound : 2 ^ 53 ≤ Binary64.bound := by decide +kernel
    have hvalue : Binary64.IsBinary64 n := Binary64.isBinary64_int hsmall.le
    refine ⟨?_, hvalue⟩
    show (if n.natAbs < Binary64.bound then some (Binary64.nearest n) else none) = some (n : Rat)
    rw [if_pos (lt_of_lt_of_le hsmall hbound), Binary64.nearest_eq_self hvalue]
  | real q => exact ⟨rfl, hproper q rfl⟩
  | minusZero => exact ⟨rfl, 0, 0, by norm_num, by norm_num, by simp [toRat]⟩

theorem toRat_ofReal (negative : Bool) (q : Rat) :
    (ofReal negative q).toRat = Binary64.nearest q := by
  unfold ofReal
  dsimp only
  split
  · next h =>
    simp only [Bool.and_eq_true, decide_eq_true_eq] at h
    rw [h.1]
    rfl
  · rfl

/-- A binary64 value is one as it is. -/
theorem toReal?_ofReal (negative : Bool) (q : Rat) :
    (ofReal negative q).toReal? = some (ofReal negative q).toRat := by
  unfold ofReal
  dsimp only
  split <;> rfl

/-- With a binary64 value a number is multiplied as one, unless it is beyond their range. -/
theorem mul_real (a : Number) (p : Rat) :
    a.mul (.real p) =
      a.toReal?.map fun q => ofReal (a.isNegative != (real p).isNegative) (q * p) := by
  cases a with
  | int n =>
    unfold mul lift
    dsimp only
    generalize (int n).toReal? = x
    cases x <;> rfl
  | real q => rfl
  | minusZero => rfl

/-- The product with the binary64 value one is as large as the number. -/
theorem IsExact.times_one (h : a.IsExact) :
    ∃ b, a.mul (.real 1) = some b ∧ b.toRat = a.toRat ∧ b.IsExact := by
  have hb (negative : Bool) : (ofReal negative (a.toRat * 1)).toRat = a.toRat := by
    rw [toRat_ofReal, mul_one, Binary64.nearest_eq_self h.2]
  refine ⟨_, by rw [mul_real, h.1, Option.map_some], hb _, toReal?_ofReal _ _, ?_⟩
  rw [hb]
  exact h.2

end Number

end Roster
