/-!
# Expressions

* `Expr`: the trees of formulas. Parentheses and prefix plus signs leave no node.
* `Expr.height`: the number of nodes on the longest path to a leaf.
* `Expr.same`: equality of trees, literals compared as numbers.
-/

namespace Formula

/-- An operator between two operands. -/
inductive Operator
  | add
  | sub
  | mul
  | div
deriving DecidableEq, Repr

/-- The tree of a formula. -/
inductive Expr
  | number (value : Float)
  | var (name : String)
  | neg (operand : Expr)
  | binary (operator : Operator) (left right : Expr)
  | call (function : String) (arguments : List Expr)

namespace Operator

/-- The character that an operator is written with. -/
def symbol : Operator → Char
  | add => '+'
  | sub => '-'
  | mul => '*'
  | div => '/'

/-- The operation on doubles. -/
def apply : Operator → Float → Float → Float
  | add, x, y => x + y
  | sub, x, y => x - y
  | mul, x, y => x * y
  | div, x, y => x / y

end Operator

namespace Expr

mutual

/-- How many levels a tree has. A leaf has one. -/
def height : Expr → Nat
  | number _ => 1
  | var _ => 1
  | neg operand => operand.height + 1
  | binary _ left right => max left.height right.height + 1
  | call _ arguments => heights arguments + 1

/-- The greatest height of a list of trees, `0` for none. -/
def heights : List Expr → Nat
  | [] => 0
  | e :: es => max e.height (heights es)

end

mutual

/-- Equality with literals compared as numbers: a NaN differs from itself, and the two zeros do not
differ. -/
def same : Expr → Expr → Bool
  | number x, number y => x == y
  | var x, var y => x == y
  | neg e, neg f => e.same f
  | binary o e f, binary p g h => o == p && e.same g && f.same h
  | call f es, call g fs => f == g && allSame es fs
  | _, _ => false

/-- The trees of two lists are the same, one by one. -/
def allSame : List Expr → List Expr → Bool
  | [], [] => true
  | e :: es, f :: fs => e.same f && allSame es fs
  | _, _ => false

end

end Expr

end Formula
