import Formula.Double
import Formula.Expr

/-!
# Printed expressions

A tree is printed with parentheses around every operation and around every negative literal, so its
text needs no rules of precedence to be read.

* `Expr.chars`: the printed tree in front of a given text.
* `Expr.text`: the printed tree.
-/

namespace Formula.Expr

mutual

/-- The printed tree in front of `tail`. -/
def chars : Expr → List Char → List Char
  | number x, tail =>
    if Binary64.isNegative x then '(' :: '-' :: (Double.write Double.plain (-x) ++ ')' :: tail)
    else Double.write Double.plain x ++ tail
  | var name, tail => name.toList ++ tail
  | neg operand, tail => '(' :: '-' :: operand.chars (')' :: tail)
  | binary operator left right, tail =>
    '(' :: left.chars (' ' :: operator.symbol :: ' ' :: right.chars (')' :: tail))
  | call function arguments, tail =>
    function.toList ++ '(' :: argumentChars arguments (')' :: tail)

/-- The arguments of a call, with a comma and a space between them. -/
def argumentChars : List Expr → List Char → List Char
  | [], tail => tail
  | e :: es, tail => e.chars (furtherChars es tail)

/-- The arguments after the first. -/
def furtherChars : List Expr → List Char → List Char
  | [], tail => tail
  | e :: es, tail => ',' :: ' ' :: e.chars (furtherChars es tail)

end

/-- The printed text of a tree. -/
def text (e : Expr) : String := String.ofList (e.chars [])

end Formula.Expr
