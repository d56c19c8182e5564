import Formula.Proofs.Acceptance
import Formula.Proofs.Bits
import Formula.Proofs.Cutting

/-!
# What trees are made of

The literals and names of a tree that is read are those of its tokens.

* `Expr.all`: a condition on the literals of a tree and one on its names.
* **`Phrase.Spelled.allOf_trees`**: a tree has what its tokens have.
* `Binary64.isUnsigned`: the doubles that a numeral can be, infinity among them.
* **`isSpellable_of_parse`**: what trees that are read are made of.
-/

namespace Formula

namespace Expr

variable (p : Float → Bool) (q : String → Bool)

mutual

/-- The literals have `p`, and the names of variables and functions have `q`. -/
def all : Expr → Bool
  | number x => p x
  | var name => q name
  | neg operand => operand.all
  | binary _ left right => left.all && right.all
  | call function arguments => q function && allOf arguments

/-- Each of the trees meets the conditions. -/
def allOf : List Expr → Bool
  | [] => true
  | e :: es => e.all && allOf es

end

end Expr

/-! ## Phrases -/

/-- The trees that a phrase is read as. -/
def Phrase.trees : Phrase → List Expr
  | tree _ e => [e]
  | arguments es => es
  | someArguments es => es

/-- The token is no literal without `p` and no name without `q`. -/
def Token.has (p : Float → Bool) (q : String → Bool) : Token → Bool
  | number value => p value
  | name text => q text
  | _ => true

variable {p : Float → Bool} {q : String → Bool}

@[simp]
theorem Token.has_operator (o : Operator) : o.token.has p q = true := by
  cases o <;> rfl

/-- **The literals and names of a tree are those of its tokens.** -/
theorem Phrase.Spelled.allOf_trees {ph : Phrase} {ts : List Token} {n : Nat}
    (h : ph.Spelled ts n) : Expr.allOf p q ph.trees = ts.all (Token.has p q) := by
  induction h with
  | number value => simp [trees, Expr.allOf, Expr.all, Token.has]
  | var name => simp [trees, Expr.allOf, Expr.all, Token.has]
  | plus _ ih => simpa [trees, Token.has] using ih
  | minus _ ih => simpa [trees, Expr.allOf, Expr.all, Token.has] using ih
  | group _ ih => simpa [trees, Expr.allOf, Token.has] using ih
  | call function _ ih =>
    rw [trees] at ih
    simp [trees, Expr.allOf, Expr.all, Token.has, ih]
  | product _ ih => exact ih
  | sum _ ih => exact ih
  | binary o _ _ ihl ihr =>
    simp only [trees, Expr.allOf, Bool.and_true] at ihl ihr
    simp [trees, Expr.allOf, Expr.all, ihl, ihr]
  | none => rfl
  | some _ ih => exact ih
  | last _ ih => exact ih
  | more _ _ ihe ihes =>
    simp only [trees, Expr.allOf, Bool.and_true] at ihe ihes
    simp [trees, Expr.allOf, Token.has, ihe, ihes]

/-! ## Sources -/

/-- The doubles that a numeral can be, infinity among them: no sign, and no NaN. -/
def Binary64.isUnsigned (x : Float) : Bool := !isNegative x && !x.isNaN

theorem Binary64.isUnsigned_ofRank (r : Nat) : isUnsigned (ofRank r) := by
  rw [isUnsigned, isNegative_ofRank, isNaN_ofRank]
  rfl

theorem Decimal.isUnsigned_toFloat (d : Decimal) : Binary64.isUnsigned d.toFloat := by
  rw [toFloat, Binary64.ofRatio]
  exact Binary64.isUnsigned_ofRank _

/-- The tree is made of what a source can hold: its literals have no sign and are no NaN, and its
names are names. -/
def Expr.isSpellable (e : Expr) : Bool :=
  e.all Binary64.isUnsigned fun name => isName name.toList

theorem Token.has_of_spelled {t : Token} {cs : List Char} (h : t.Spelled cs) :
    t.has Binary64.isUnsigned (fun name => Formula.isName name.toList) := by
  cases h with
  | number h hread =>
    obtain ⟨n, hn, hd, rfl⟩ := Numeral.exists_of_isNumber h
    rw [Double.read_spelling hn hd] at hread
    obtain rfl : n.decimal.toFloat = _ := Except.ok.inj hread
    rw [Token.has]
    exact n.decimal.isUnsigned_toFloat
  | name h =>
    rw [Token.has, String.toList_ofList]
    exact h
  | _ => rfl

/-- **What trees that are read are made of.** -/
theorem isSpellable_of_parse {source : String} {limits : Limits} {e : Expr}
    (h : parse source limits = .ok e) : e.isSpellable := by
  obtain ⟨ts, n, hts, hn, -⟩ := spelled_of_parse h
  have hall := hn.allOf_trees (p := Binary64.isUnsigned) (q := fun name => isName name.toList)
  rw [Phrase.trees, Expr.allOf, Expr.allOf, Bool.and_true] at hall
  rw [Expr.isSpellable, hall, List.all_eq_true]
  intro t ht
  have hmem : .token t ∈ (Item.ofSource source).map (·.piece) := by
    rw [tokenize_eq_ok_iff.1 hts]
    exact List.mem_map_of_mem ht
  obtain ⟨cs, hcs⟩ := (cuts_ofChars 0 source.toList).spelled hmem
  exact Token.has_of_spelled hcs

end Formula
