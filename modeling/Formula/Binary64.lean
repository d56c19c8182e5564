/-!
# The grid of double-precision magnitudes

The non-negative doubles, read as bit patterns, are numbered in rising order: `0` is zero, `top` is
infinity, and one more bit is the next larger double. The number of a double is its *rank*. The
ranks from one power of two to the next make a *binade*, and in each binade the spacing is twice
that of the one before.

* `units`: the value of a rank as a multiple of the least positive double `2 ^ -1074`.
* `nearest`: the rank of the double nearest to a quotient, a half going to the even rank.
* **`nearest_units`**: a value on the grid is nearest to itself.
* **`nearest_mul_mul`**: only the quotient counts, not its numerator and denominator.
* `ofRank`, `ofRatio`, `rank`, `isNegative`: the doubles of ranks and quotients, and the rank and
  the sign of a double.
-/

namespace Formula.Binary64

/-- The number of ranks in a binade, `2 ^ 52`. -/
def binade : Nat := 0x10000000000000

/-- The rank of infinity. -/
def top : Nat := 0x7ff * binade

/-! ## The values of the ranks -/

/-- The factor `m` of the value `m * 2 ^ (scale r - 1074)` of rank `r`. -/
def significand (r : Nat) : Nat := if r < binade then r else r % binade + binade

/-- How often the spacing has doubled between zero and rank `r`. -/
def scale (r : Nat) : Nat := r / binade - 1

/-- The value of rank `r`, counted in units of `2 ^ -1074`. -/
def units (r : Nat) : Nat := significand r <<< scale r

/-- How many units make a one. -/
@[irreducible]
def unitsPerOne : Nat := 1 <<< 1074

theorem unitsPerOne_eq {j k : Nat} (h : j + k = 1074) : unitsPerOne = (1 <<< j) <<< k := by
  rw [unitsPerOne, ← Nat.shiftLeft_add, h]

theorem unitsPerOne_pos : 0 < unitsPerOne := by
  rw [unitsPerOne]
  decide +kernel

/-! ## Rounding -/

/-- The rank nearest to `n / d`, a half going to the even one. The whole units of the quotient say
which spacing applies; the steps of that spacing are then counted and rounded. -/
def nearest (n d : Nat) : Nat :=
  let scaled := n * unitsPerOne
  let doublings := (scaled / d).log2 - 52
  let step := d <<< doublings
  let whole := scaled / step
  let rest := scaled % step
  doublings * binade +
    if 2 * rest < step then whole else if step < 2 * rest then whole + 1 else whole + whole % 2

theorem nearest_mul_mul (n d : Nat) {k : Nat} (hk : 0 < k) :
    nearest (n * k) (d * k) = nearest n d := by
  have hn : n * k * unitsPerOne = n * unitsPerOne * k := Nat.mul_right_comm ..
  have hd (j : Nat) : (d * k) <<< j = d <<< j * k := by
    rw [Nat.shiftLeft_eq, Nat.shiftLeft_eq, Nat.mul_right_comm]
  have hlt (a b : Nat) : 2 * (a * k) < b * k ↔ 2 * a < b := by
    rw [← Nat.mul_assoc, Nat.mul_lt_mul_right hk]
  have hgt (a b : Nat) : b * k < 2 * (a * k) ↔ b < 2 * a := by
    rw [← Nat.mul_assoc, Nat.mul_lt_mul_right hk]
  simp only [nearest, hn, hd, Nat.mul_div_mul_right _ _ hk, Nat.mul_mod_mul_right, hlt, hgt]

theorem log2_shiftLeft {m : Nat} (hm : m ≠ 0) (s : Nat) : (m <<< s).log2 = m.log2 + s := by
  rw [Nat.shiftLeft_eq]
  refine (Nat.log2_eq_iff (Nat.mul_ne_zero hm (Nat.ne_of_gt (Nat.two_pow_pos s)))).2 ⟨?_, ?_⟩
  · rw [Nat.pow_add]
    exact Nat.mul_le_mul_right _ (Nat.log2_self_le hm)
  · rw [Nat.add_right_comm, Nat.pow_add]
    exact Nat.mul_lt_mul_of_pos_right Nat.lt_log2_self (Nat.two_pow_pos s)

/-- A value of `m` steps, each of `s` doublings, has its rank where the steps of its binade are. -/
theorem nearest_shiftLeft {m s : Nat} (h : (m <<< s).log2 - 52 = s) :
    nearest (m <<< s) unitsPerOne = s * binade + m := by
  have hpos : 0 < unitsPerOne <<< s := by
    rw [Nat.shiftLeft_eq]
    exact Nat.mul_pos unitsPerOne_pos (Nat.two_pow_pos s)
  have hstep : m <<< s * unitsPerOne = m * unitsPerOne <<< s := by
    rw [Nat.shiftLeft_eq, Nat.shiftLeft_eq, Nat.mul_assoc, Nat.mul_comm (2 ^ s)]
  simp only [nearest, Nat.mul_div_cancel _ unitsPerOne_pos, h]
  rw [hstep, Nat.mul_div_cancel _ hpos, Nat.mul_mod_left, Nat.mul_zero, if_pos hpos]

/-- **A value on the grid is nearest to itself.** -/
theorem nearest_units (r : Nat) : nearest (units r) unitsPerOne = r := by
  have hb : binade = 4503599627370496 := rfl
  unfold units
  by_cases h : r < binade
  · have hs : scale r = 0 := by simp only [scale, hb] at *; omega
    have hlog : (r <<< 0).log2 - 52 = 0 := by
      by_cases h0 : r = 0
      · simp [h0]
      · have := (Nat.log2_lt (k := 52) h0).2 h
        simp only [Nat.shiftLeft_zero]
        omega
    rw [significand, if_pos h, hs, nearest_shiftLeft hlog, Nat.zero_mul, Nat.zero_add]
  · have hm0 : r % binade + binade ≠ 0 := by omega
    have hm : (r % binade + binade).log2 = 52 :=
      (Nat.log2_eq_iff hm0).2 ⟨by simp only [hb]; omega, by simp only [hb]; omega⟩
    have hlog := log2_shiftLeft hm0 (scale r)
    have hr : scale r * binade + (r % binade + binade) = r := by
      simp only [scale, hb] at *
      omega
    rw [significand, if_neg h, nearest_shiftLeft (by omega), hr]

/-! ## Doubles -/

/-- The non-negative double of a rank; beyond `top` there is only infinity. -/
def ofRank (r : Nat) : Float := Float.ofBits (UInt64.ofNat (min r top))

/-- The double nearest to `n / d`. -/
def ofRatio (n d : Nat) : Float := ofRank (nearest n d)

/-- The sign bit is set. A NaN has none. -/
def isNegative (x : Float) : Bool := 0x8000000000000000 ≤ x.toBits.toNat

/-- The rank of a double that is not negative. -/
def rank (x : Float) : Nat := x.toBits.toNat

end Formula.Binary64
