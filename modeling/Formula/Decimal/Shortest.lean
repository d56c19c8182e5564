import Formula.Decimal

/-!
# The shortest decimal of a magnitude

A magnitude is written with the fewest digits that read back to it. For each digit count only the
two neighbours of the exact value on that decimal grid matter; of two that read back the nearer is
taken, and of two equally near ones the larger.

* `Decimal.neighbours`: the two candidates, the better one first.
* `Decimal.shortest`: the first candidate that reads back, counting from one digit.
* **`rank_shortest`**: what is chosen reads back.
-/

namespace Formula.Decimal

/-- The two decimals around `d` that are left without its last `dropped` digits, the nearer one
first and of two equally near ones the larger. -/
def neighbours (d : Decimal) (dropped : Nat) : List Decimal :=
  let unit := Nat.pow 10 dropped
  let below : Decimal := ⟨d.coefficient / unit, d.exponent + dropped⟩
  let above : Decimal := ⟨d.coefficient / unit + 1, d.exponent + dropped⟩
  if 2 * (d.coefficient % unit) < unit then [below, above] else [above, below]

/-- The first decimal of one digit, of two, and so on to 17 that reads back to rank `r`, next to the
exact value `d`. -/
def shortest? (d : Decimal) (r : Nat) : Option Decimal :=
  let size := d.digits.length
  (List.range' 1 17).findSome? fun n => (d.neighbours (size - n)).find? fun e => e.rank == r

/-- The shortest decimal that reads back to rank `r`. No rank needs more than 17 digits; the exact
value stands behind them so that the result reads back by construction. -/
def shortest (r : Nat) : Decimal := ((shortest? (ofRank r) r).getD (ofRank r)).trimmed

/-- **What is chosen reads back.** -/
theorem rank_shortest (r : Nat) : (shortest r).rank = r := by
  rw [shortest, rank_trimmed]
  cases h : shortest? (ofRank r) r with
  | none => exact rank_ofRank r
  | some d =>
    obtain ⟨n, -, hn⟩ := List.exists_of_findSome?_eq_some h
    simpa using List.find?_some hn

end Formula.Decimal
