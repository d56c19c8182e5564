import Formula.Proofs.Embedding
import Formula.Proofs.Leaves

/-!
# Which trees are read

A tree is read from some source if it is made of what a source can hold. Its printed text is not
always such a source, as an infinite literal is printed as a word.

* `Expr.written`: a source of a tree, with all literals as digits.
* **`Expr.readAs_written`**: it is read as the tree, and nests no deeper than the tree is high.
* **`exists_parse_iff`**: the trees that are read.
-/

namespace Formula

namespace Expr

mutual

/-- A source of the tree. Every literal is written in digits: the rank of infinity has a shortest
decimal like any other rank, and that is rounded to infinity. -/
def written : Expr → List Char
  | number x => (Decimal.shortest (Binary64.rank x)).positional
  | var name => name.toList
  | neg operand => '-' :: operand.written
  | binary operator left right =>
    '(' :: (left.written ++ operator.symbol :: right.written ++ [')'])
  | call function arguments =>
    function.toList ++ '(' :: ([','].intercalate (allWritten arguments) ++ [')'])

/-- A source of each of the trees. -/
def allWritten : List Expr → List (List Char)
  | [] => []
  | e :: es => e.written :: allWritten es

end

end Expr

/-! ## Leaves -/

theorem ReadAs.mono {m n : Nat} {cs : List Char} {ph : Phrase} (h : ReadAs m cs ph) (hle : m ≤ n) :
    ReadAs n cs ph := by
  obtain ⟨ts, k, hts, hk, hdepth⟩ := h
  exact ⟨ts, k, hts, hk, Nat.le_trans hdepth hle⟩

/-- The digits of a literal, infinity among them. -/
theorem readAs_number {x : Float} (h : Binary64.isUnsigned x) :
    ReadAs 0 (Decimal.shortest (Binary64.rank x)).positional (.tree .operand (.number x)) := by
  rw [Binary64.isUnsigned, Bool.and_eq_true, Bool.not_eq_true', Bool.not_eq_true'] at h
  refine ⟨[.number x], 0, ?_, .number x, Nat.le_refl 0⟩
  have hpieces := pieces_numeral (Decimal.ofDigits_numeral (Decimal.shortest (Binary64.rank x)))
    (Decimal.hasDigit_numeral _) delimited_nil
  rw [List.append_nil, pieces_nil, Double.toFloat_shortest h.1 h.2] at hpieces
  rw [Decimal.positional_eq, hpieces]
  rfl

theorem readAs_var {name : String} (h : isName name.toList) :
    ReadAs 0 name.toList (.tree .operand (.var name)) := by
  refine ⟨[.name name], 0, ?_, .var name, Nat.le_refl 0⟩
  have hpieces := pieces_name h delimited_nil
  rw [List.append_nil, pieces_nil, String.ofList_toList] at hpieces
  rw [hpieces]
  rfl

/-! ## Trees -/

namespace Expr

mutual

/-- **A tree is read from what it is written as**, within a nesting of its height. -/
theorem readAs_written : ∀ e : Expr, e.isSpellable →
    ReadAs e.height e.written (.tree .operand e)
  | number x, h => by
    rw [isSpellable, all] at h
    rw [written, height]
    exact (readAs_number h).mono (Nat.zero_le 1)
  | var name, h => by
    rw [isSpellable, all] at h
    rw [written, height]
    exact (readAs_var h).mono (Nat.zero_le 1)
  | neg operand, h => by
    rw [isSpellable, all] at h
    rw [written, height]
    exact (readAs_written operand h).neg
  | binary o left right, h => by
    rw [isSpellable, all, Bool.and_eq_true] at h
    rw [written, height]
    have hleft := (readAs_written left h.1).mono (Nat.le_max_left left.height right.height)
    have hright := (readAs_written right h.2).mono (Nat.le_max_right left.height right.height)
    exact (ReadAs.binary o hleft hright).group
  | call function arguments, h => by
    rw [isSpellable, all, Bool.and_eq_true] at h
    rw [written, height]
    have harguments := ReadAs.arguments (readAs_allWritten arguments h.2 (Nat.le_refl _))
    have hcall := harguments.call h.1
    rwa [String.ofList_toList] at hcall

theorem readAs_allWritten : ∀ (es : List Expr) {depth : Nat},
    (allOf Binary64.isUnsigned (fun name => isName name.toList) es) → heights es ≤ depth →
      List.Forall₂ (fun cs e => ReadAs depth cs (.tree .sum e)) (allWritten es) es
  | [], _, _, _ => by
    rw [allWritten]
    exact .nil
  | e :: es, depth, h, hdepth => by
    rw [allOf, Bool.and_eq_true] at h
    rw [heights] at hdepth
    obtain ⟨he, hes⟩ := Nat.max_le.1 hdepth
    rw [allWritten]
    exact .cons (((readAs_written e h.1).mono he).of_operand .sum) (readAs_allWritten es h.2 hes)

end

end Expr

/-! ## Sources -/

theorem parse_written {e : Expr} (h : e.isSpellable) :
    parse (String.ofList e.written) ⟨e.height, e.height⟩ = .ok e := by
  refine parse_eq_ok_iff_readAs.2 ⟨?_, Nat.le_refl _⟩
  rw [String.toList_ofList]
  exact (e.readAs_written h).of_operand .sum

/-- Infinity is written in digits, and read from them. -/
example : (Expr.number (Binary64.ofRank Binary64.top)).written =
    "1797693134862316".toList ++ List.replicate 293 '0' := by
  rw [Expr.written, Binary64.rank_ofRank]
  decide +kernel

/-- **The trees that are read.** Some source is read as the tree within some limits exactly if the
names of the tree are names, and its literals have no sign and are no NaN. They may be infinite. -/
theorem exists_parse_iff (e : Expr) :
    (∃ source limits, parse source limits = .ok e) ↔ e.isSpellable :=
  ⟨fun ⟨_, _, h⟩ => isSpellable_of_parse h, fun h => ⟨_, _, parse_written h⟩⟩

end Formula
