import Formula.Binary64

/-!
# Decimals

A decimal is a whole coefficient times a power of ten. Numbers are read as decimals and then
rounded once, and every finite double is itself a decimal.

* `Decimal.ofDigits`: the decimal with given digits before and after its point.
* `Decimal.toFloat`: the nearest double, a half going to the even one.
* `Decimal.trimmed`: the same number without trailing zeros in its coefficient.
* **`Decimal.rank_ofRank`**: the exact value `Decimal.ofRank r` of a magnitude reads back to it.
* `Decimal.positional`: the digits with a point and no exponent.
-/

namespace Formula

/-- The number `coefficient * 10 ^ exponent`. -/
structure Decimal where
  coefficient : Nat
  exponent : Int
deriving DecidableEq, Repr

namespace Decimal

open Binary64

/-- The decimal written `whole.fraction`. -/
def ofDigits (whole fraction : List Char) : Decimal :=
  ⟨Nat.ofDigitChars 10 (whole ++ fraction) 0, -fraction.length⟩

/-- The decimal is the quotient of this number and `denominator`. -/
def numerator (d : Decimal) : Nat := d.coefficient * Nat.pow 10 d.exponent.toNat

/-- A power of ten, `1` if the exponent is not negative. -/
def denominator (d : Decimal) : Nat := Nat.pow 10 (-d.exponent).toNat

/-- The rank of the double nearest to the decimal. -/
def rank (d : Decimal) : Nat := nearest d.numerator d.denominator

/-- The double nearest to the decimal. -/
def toFloat (d : Decimal) : Float := ofRatio d.numerator d.denominator

/-! ## Trailing zeros -/

/-- Moves the trailing zeros of the coefficient into the exponent. -/
def trimmed (d : Decimal) : Decimal :=
  if h : d.coefficient = 0 then ⟨0, 0⟩
  else if d.coefficient % 10 = 0 then trimmed ⟨d.coefficient / 10, d.exponent + 1⟩
  else d
termination_by d.coefficient
decreasing_by exact Nat.div_lt_self (Nat.pos_of_ne_zero h) (by decide)

theorem rank_carry {c : Nat} (hc : c % 10 = 0) (e : Int) :
    rank ⟨c / 10, e + 1⟩ = rank ⟨c, e⟩ := by
  have h10 : c = c / 10 * 10 := by omega
  simp only [rank, numerator, denominator, Nat.pow_eq]
  by_cases he : 0 ≤ e
  · have h1 : (e + 1).toNat = e.toNat + 1 := by omega
    have h2 : (-(e + 1)).toNat = (-e).toNat := by omega
    rw [h1, h2, Nat.pow_succ', ← Nat.mul_assoc, ← h10]
  · have h1 : (e + 1).toNat = 0 := by omega
    have h2 : e.toNat = 0 := by omega
    have h3 : (-e).toNat = (-(e + 1)).toNat + 1 := by omega
    rw [h1, h2, h3, Nat.pow_zero, Nat.mul_one, Nat.mul_one, Nat.pow_succ,
      ← nearest_mul_mul (c / 10) _ (by decide : 0 < 10), ← h10]

theorem rank_zero (e : Int) : rank ⟨0, e⟩ = 0 := by
  simp [rank, numerator, denominator, nearest]

@[simp]
theorem rank_trimmed (d : Decimal) : d.trimmed.rank = d.rank := by
  fun_induction trimmed d with
  | case1 d h =>
    obtain ⟨c, e⟩ := d
    subst h
    rw [rank_zero, rank_zero]
  | case2 d h h10 ih => rw [ih, rank_carry h10]
  | case3 => rfl

/-! ## Exact values -/

/-- The value of the magnitude of rank `r`, all of its digits. A power of two below one is a power
of five in the coefficient. -/
def ofRank (r : Nat) : Decimal :=
  let power : Int := scale r - 1074
  ⟨significand r <<< power.toNat * Nat.pow 5 (-power).toNat, min power 0⟩

/-- **The exact value of a rank reads back.** -/
theorem rank_ofRank (r : Nat) : (ofRank r).rank = r := by
  refine Eq.trans ?_ (nearest_units r)
  have hmin : (min ((scale r : Int) - 1074) 0).toNat = 0 := by omega
  simp only [rank, numerator, denominator, ofRank, units, hmin, Nat.pow_eq, Nat.pow_zero,
    Nat.mul_one]
  by_cases h : 1074 ≤ scale r
  · have h1 : (-((scale r : Int) - 1074)).toNat = 0 := by omega
    have h2 : (-(min ((scale r : Int) - 1074) 0)).toNat = 0 := by omega
    obtain ⟨j, hj⟩ := Nat.exists_eq_add_of_le' h
    have h3 : ((scale r : Int) - 1074).toNat = j := by omega
    rw [h1, h2, h3, Nat.pow_zero, ← nearest_mul_mul _ _ unitsPerOne_pos, Nat.one_mul,
      Nat.mul_one, hj, Nat.shiftLeft_add, Nat.shiftLeft_eq _ 1074, unitsPerOne, Nat.one_shiftLeft]
  · obtain ⟨k, hk⟩ := Nat.exists_eq_add_of_le (Nat.le_of_not_le h)
    have h1 : (-((scale r : Int) - 1074)).toNat = k := by omega
    have h2 : (-(min ((scale r : Int) - 1074) 0)).toNat = k := by omega
    have h3 : ((scale r : Int) - 1074).toNat = 0 := by omega
    have h10 : Nat.pow 10 k = Nat.pow 2 k * Nat.pow 5 k := Nat.mul_pow 2 5 k
    simp only [Nat.pow_eq] at h10
    rw [h1, h2, h3, Nat.shiftLeft_zero, h10, nearest_mul_mul _ _ (Nat.pow_pos (by decide)),
      unitsPerOne_eq (k.add_comm _ ▸ hk.symm), Nat.one_shiftLeft, Nat.shiftLeft_eq,
      Nat.shiftLeft_eq, nearest_mul_mul _ _ (Nat.two_pow_pos _)]

/-! ## Digits -/

/-- The digits of the coefficient. -/
def digits (d : Decimal) : List Char := Nat.toDigits 10 d.coefficient

/-- All digits in their places, with at least one before the point, and no point in a whole
number. -/
def positional (d : Decimal) : List Char :=
  if 0 ≤ d.exponent then d.digits ++ List.replicate d.exponent.toNat '0'
  else
    let places := (-d.exponent).toNat
    let padded := List.replicate (places + 1 - d.digits.length) '0' ++ d.digits
    padded.take (padded.length - places) ++ '.' :: padded.drop (padded.length - places)

/-- The exponent of the first digit. -/
def leading (d : Decimal) : Int := d.exponent + d.digits.length - 1

/-- One digit before the point, then the exponent that this needs. -/
def scientific (d : Decimal) : List Char :=
  let rest := d.digits.drop 1
  d.digits.take 1 ++ (if rest.isEmpty then [] else '.' :: rest) ++
    'e' :: (toString d.leading).toList

end Decimal

end Formula
