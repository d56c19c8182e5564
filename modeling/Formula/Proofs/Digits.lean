import Formula.Double
import Formula.Proofs.Bits
import Formula.Proofs.Pieces

/-!
# Printed numbers are read back

* `Decimal.numeral`: the numeral that a decimal is printed as.
* `Decimal.rank_numeral`: it writes a number of the same rank.
* **`pieces_write`**: the text of a double is one piece, and this is the double again, or a word.
* **`Double.read_write`**: the text of a double is read as this double, also by itself.
-/

namespace Formula

namespace Decimal

/-- The digits of the decimal behind as many zeros as its places need. -/
def padded (d : Decimal) : List Char :=
  List.replicate ((-d.exponent).toNat + 1 - d.digits.length) '0' ++ d.digits

/-- The numeral that the decimal is printed as. -/
def numeral (d : Decimal) : Numeral :=
  if 0 ≤ d.exponent then ⟨d.digits ++ List.replicate d.exponent.toNat '0', none⟩
  else
    let whole := d.padded.length - (-d.exponent).toNat
    ⟨d.padded.take whole, some (d.padded.drop whole)⟩

variable (d : Decimal)

theorem positional_eq : d.positional = d.numeral.spelling := by
  unfold positional numeral
  by_cases h : 0 ≤ d.exponent
  · rw [if_pos h, if_pos h]
    rfl
  · rw [if_neg h, if_neg h]
    rfl

theorem all_isDigit_digits : d.digits.all Char.isDigit := by
  rw [List.all_eq_true]
  exact fun c hc => Nat.isDigit_of_mem_toDigits (by decide) (by decide) hc

theorem all_isDigit_zeros (n : Nat) : (List.replicate n '0').all Char.isDigit := by
  rw [List.all_replicate]
  split <;> rfl

theorem all_isDigit_padded : d.padded.all Char.isDigit := by
  rw [padded, List.all_append, all_isDigit_zeros, all_isDigit_digits]
  rfl

theorem lt_length_padded : (-d.exponent).toNat < d.padded.length := by
  have hpos : 0 < d.digits.length := Nat.length_toDigits_pos
  rw [padded, List.length_append, List.length_replicate]
  omega

theorem ofDigits_numeral : d.numeral.OfDigits := by
  unfold numeral
  by_cases h : 0 ≤ d.exponent
  · rw [if_pos h]
    refine ⟨?_, rfl⟩
    rw [List.all_append, all_isDigit_digits, all_isDigit_zeros]
    rfl
  · have hall := d.all_isDigit_padded
    rw [List.all_eq_true] at hall
    rw [if_neg h]
    refine ⟨?_, ?_⟩
    · exact List.all_eq_true.2 fun c hc => hall c (List.mem_of_mem_take hc)
    · exact List.all_eq_true.2 fun c hc => hall c (List.mem_of_mem_drop hc)

theorem hasDigit_numeral : d.numeral.hasDigit := by
  have hdigits : d.digits ≠ [] := Nat.toDigits_ne_nil
  unfold numeral
  by_cases h : 0 ≤ d.exponent
  · rw [if_pos h]
    simp [Numeral.hasDigit, hdigits]
  · rw [if_neg h]
    simp [Numeral.hasDigit, padded, hdigits]

/-- Printed zeros are the exponent, and the point is where it was. -/
theorem rank_numeral : d.numeral.decimal.rank = d.rank := by
  unfold numeral
  by_cases h : 0 ≤ d.exponent
  · rw [if_pos h]
    have hneg : (-d.exponent).toNat = 0 := by omega
    have hvalue : Nat.ofDigitChars 10 (d.digits ++ List.replicate d.exponent.toNat '0') 0 =
        d.coefficient * Nat.pow 10 d.exponent.toNat := by
      rw [Nat.ofDigitChars_append, digits, Nat.ofDigitChars_ten_toDigits,
        Nat.ofDigitChars_replicate_zero, Nat.mul_comm]
      rfl
    simp [rank, numerator, denominator, Numeral.decimal, ofDigits, hvalue, hneg]
  · have hlength := d.lt_length_padded
    have hvalue : Nat.ofDigitChars 10 d.padded 0 = d.coefficient := by
      rw [padded, Nat.ofDigitChars_append, Nat.ofDigitChars_replicate_zero, Nat.mul_zero, digits,
        Nat.ofDigitChars_ten_toDigits]
    have hplaces : -((d.padded.length - (d.padded.length - (-d.exponent).toNat) : Nat) : Int) =
        d.exponent := by
      omega
    rw [if_neg h]
    simp only [Numeral.decimal, ofDigits, Option.getD_some, List.take_append_drop, hvalue,
      List.length_drop, hplaces]

end Decimal

/-! ## Doubles -/

namespace Double

open Binary64

/-- The token that the text of a double without sign is. -/
def token (x : Float) : Token :=
  if x.isNaN then .name "NaN" else if x.isInf then .name "inf" else .number x

variable {x : Float} {tail : List Char}

theorem writeDecimal_plain (d : Decimal) : writeDecimal plain d = d.positional := by
  show d.positional ++ [] = _
  rw [List.append_nil]

theorem toFloat_shortest (hn : isNegative x = false) (hx : x.isNaN = false) :
    (Decimal.shortest (rank x)).numeral.decimal.toFloat = x := by
  show ofRank (Decimal.shortest (rank x)).numeral.decimal.rank = x
  rw [Decimal.rank_numeral, Decimal.rank_shortest, ofRank_rank hn hx]

theorem writeRank_eq_spelling (hn : isNegative x = false) (hx : x.isNaN = false) (hi : ¬ x.isInf) :
    writeRank plain (rank x) = (Decimal.shortest (rank x)).numeral.spelling := by
  rw [writeRank, if_neg fun h => hi ((top_le_rank_iff hn hx).1 h), writeDecimal_plain,
    Decimal.positional_eq]

/-- The text of a double without sign is one piece. -/
theorem pieces_write (hn : isNegative x = false) (ht : Delimited tail) :
    pieces (write plain x ++ tail) = .token (token x) :: pieces tail := by
  unfold write token
  by_cases hx : x.isNaN
  · rw [if_pos hx, if_pos hx]
    exact pieces_name (by decide) ht
  · rw [if_neg hx, if_neg hx, hn, if_neg Bool.false_ne_true]
    rw [Bool.not_eq_true] at hx
    by_cases hi : x.isInf
    · rw [if_pos hi, writeRank, if_pos ((top_le_rank_iff hn hx).2 hi)]
      exact pieces_name (by decide) ht
    · rw [if_neg hi, writeRank_eq_spelling hn hx hi,
        pieces_numeral (Decimal.ofDigits_numeral _) (Decimal.hasDigit_numeral _) ht,
        toFloat_shortest hn hx]

/-! ### Reading by itself -/

theorem isNameRest_or_of_mem_writeRank {r : Nat} {c : Char} (h : c ∈ writeRank plain r) :
    isNameRest c ∨ c = '.' := by
  unfold writeRank at h
  split at h
  · have hword : ['i', 'n', 'f'].all isNameRest := by decide
    exact .inl (List.all_eq_true.1 hword c h)
  · rw [writeDecimal_plain, Decimal.positional_eq] at h
    exact (Numeral.isDigit_or_of_mem_spelling (Decimal.ofDigits_numeral _) h).imp
      isNameRest_of_isDigit And.left

theorem isNameRest_or_of_mem_write {c : Char} (h : c ∈ write plain x) :
    isNameRest c ∨ c = '.' ∨ c = '-' := by
  unfold write at h
  split at h
  · have hword : ['N', 'a', 'N'].all isNameRest := by decide
    exact .inl (List.all_eq_true.1 hword c h)
  · split at h
    · rcases List.mem_cons.1 h with h | h
      · exact .inr (.inr h)
      · exact (isNameRest_or_of_mem_writeRank h).imp_right .inl
    · exact (isNameRest_or_of_mem_writeRank h).imp_right .inl

theorem readMagnitude?_writeRank (hn : isNegative x = false) (hx : x.isNaN = false) :
    readMagnitude? (writeRank plain (rank x)) = some x := by
  by_cases hi : x.isInf
  · have htop : rank x = top :=
      Nat.le_antisymm (rank_le_top hn hx) ((top_le_rank_iff hn hx).2 hi)
    have hword : readMagnitude? ['i', 'n', 'f'] = some (ofRank top) := rfl
    rw [writeRank, htop, if_pos (Nat.le_refl top), hword, ← htop, ofRank_rank hn hx]
  · rw [writeRank_eq_spelling hn hx hi,
      readMagnitude?_spelling (Decimal.ofDigits_numeral _) (Decimal.hasDigit_numeral _),
      toFloat_shortest hn hx]

theorem read_of_unsigned {cs : List Char} (h : ∀ c ∈ cs, c ≠ '-' ∧ c ≠ '+')
    (hx : readMagnitude? cs = some x) : read cs = .ok x := by
  unfold read
  split
  next rest => exact absurd rfl (h '-' (.head _)).1
  next rest => exact absurd rfl (h '+' (.head _)).2
  next => rw [hx]

theorem read_neg {cs : List Char} (hx : readMagnitude? cs = some x) :
    read ('-' :: cs) = .ok (-x) := by
  simp only [read, hx, Option.map_some]

/-- **The text of a double is read back**, whatever its sign is and whether it is a number or
not. -/
theorem read_write (x : Float) : read (write plain x) = .ok x := by
  unfold write
  by_cases hx : x.isNaN
  · have hread : read ['N', 'a', 'N'] = .ok (0 / 0) := rfl
    rw [if_pos hx, hread, eq_of_isNaN hx (y := 0 / 0) rfl]
  · rw [if_neg hx]
    rw [Bool.not_eq_true] at hx
    by_cases hn : isNegative x
    · have habs := readMagnitude?_writeRank (isNegative_abs hx) (isNaN_abs hx)
      rw [if_pos hn, neg_eq_abs hn, read_neg habs, neg_abs hn]
    · rw [if_neg hn]
      rw [Bool.not_eq_true] at hn
      refine read_of_unsigned (fun c hc => ?_) (readMagnitude?_writeRank hn hx)
      rcases isNameRest_or_of_mem_writeRank hc with h | rfl
      · constructor <;> rintro rfl <;> exact absurd h (by decide)
      · decide

end Double

end Formula
