import Formula.Decimal

/-!
# Numerals

A numeral is a run of digits with at most one point among them, without sign and exponent. It is the
whole of a number in a formula, and the first part of a number in a binding.

* `Numeral.ofChars`: the longest numeral at the head of a text, and what follows it.
* **`spelling_ofChars`**: the two together are the text.
* `Numeral.decimal`: the number that it writes.
-/

namespace Formula

/-- Digits before the point and, if there is a point, after it. -/
structure Numeral where
  whole : List Char
  fraction : Option (List Char)

namespace Numeral

/-- The longest numeral at the head of `cs`, which may be without a digit, and the rest. -/
def ofChars (cs : List Char) : Numeral × List Char :=
  let whole := cs.takeWhile Char.isDigit
  match cs.dropWhile Char.isDigit with
  | '.' :: rest => (⟨whole, some (rest.takeWhile Char.isDigit)⟩, rest.dropWhile Char.isDigit)
  | rest => (⟨whole, none⟩, rest)

/-- The characters of a numeral. -/
def spelling (n : Numeral) : List Char :=
  match n.fraction with
  | none => n.whole
  | some fraction => n.whole ++ '.' :: fraction

/-- A numeral without a digit is no number. -/
def hasDigit (n : Numeral) : Bool := !(n.whole ++ n.fraction.getD []).isEmpty

/-- The decimal that a numeral stands for. -/
def decimal (n : Numeral) : Decimal := Decimal.ofDigits n.whole (n.fraction.getD [])

/-- How many digits are written. -/
def size (n : Numeral) : Nat := n.whole.length + (n.fraction.getD []).length

theorem spelling_ofChars (cs : List Char) : (ofChars cs).1.spelling ++ (ofChars cs).2 = cs := by
  have hcs := List.takeWhile_append_dropWhile (p := Char.isDigit) (l := cs)
  unfold ofChars
  split
  next rest h =>
    rw [h] at hcs
    simp [spelling, hcs]
  next => simp [spelling]

theorem spelling_ofChars_ne_nil {c : Char} (h : c.isDigit ∨ c = '.') (cs : List Char) :
    (ofChars (c :: cs)).1.spelling ≠ [] := by
  unfold ofChars
  split
  · simp [spelling]
  next rest hrest =>
    rcases h with h | rfl
    · simp [spelling, h]
    · exact absurd (by simp) (hrest cs)

end Numeral

end Formula
