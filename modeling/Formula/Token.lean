import Formula.Name
import Formula.Double

/-!
# Tokens

* `Token`: the words of a formula. The end of the text is no token: where it can stand, the type is
  `Option Token` and the end is `none`.
* `Token.describe`: a token, or the end, as messages name it.
-/

namespace Formula

/-- A word of a formula, without its place. -/
inductive Token
  | number (value : Float)
  | name (text : String)
  | plus
  | minus
  | star
  | slash
  | openParen
  | closeParen
  | comma
deriving DecidableEq

namespace Token

/-- The tokens of one character. -/
def symbol? : Char → Option Token
  | '+' => some plus
  | '-' => some minus
  | '*' => some star
  | '/' => some slash
  | '(' => some openParen
  | ')' => some closeParen
  | ',' => some comma
  | _ => none

/-- A token as messages name it, or the end of the source. -/
def describe : Option Token → String
  | some (number value) => "number " ++ Double.text value
  | some (name text) => "identifier '" ++ text ++ "'"
  | some plus => "'+'"
  | some minus => "'-'"
  | some star => "'*'"
  | some slash => "'/'"
  | some openParen => "'('"
  | some closeParen => "')'"
  | some comma => "','"
  | none => "end of input"

end Token

end Formula
