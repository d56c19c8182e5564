/-!
# Errors

Reading fails with a `ParseError`, evaluating with an `EvalError`. Each constructor is a cause with
what is known of it; the wording is in `message` alone. A position is a byte offset in the source.
-/

namespace Formula

/-- A piece of text that is no token. -/
structure LexicalError where
  text : String
  position : Nat
deriving DecidableEq, Repr

/-- Why a source is no formula. A token is given as `Token.describe` names it. -/
inductive ParseError
  | lexical (error : LexicalError)
  | unexpectedToken (token : String) (position : Nat)
  | unexpectedEnd (position : Nat)
  | expectedClosing (position : Nat)
  | trailingTokens (token : String) (position : Nat)
  | nestingTooDeep (limit position : Nat)
  | tooLarge (limit position : Nat)
deriving DecidableEq, Repr

/-- Why a formula has no value. -/
inductive EvalError
  | unknownVariable (name : String)
  | unknownFunction (name : String)
  | argumentCount (name expected : String) (found : Nat)
  | invalidArgument (name details : String)
deriving DecidableEq, Repr

/-- What can go wrong with a formula, before it is a tree or after. -/
inductive Error
  | parse (error : ParseError)
  | eval (error : EvalError)
deriving DecidableEq, Repr

namespace ParseError

/-- Where the error was seen. -/
def position : ParseError → Nat
  | lexical error => error.position
  | unexpectedToken _ position => position
  | unexpectedEnd position => position
  | expectedClosing position => position
  | trailingTokens _ position => position
  | nestingTooDeep _ position => position
  | tooLarge _ position => position

/-- What is wrong, without the place. -/
def reason : ParseError → String
  | lexical error => s!"Unexpected character '{error.text}'."
  | unexpectedToken token _ => s!"Unexpected token: {token}."
  | unexpectedEnd _ => "Unexpected end of input."
  | expectedClosing _ => "Expected closing parenthesis ')' but none found."
  | trailingTokens token _ => s!"Extra tokens after expression: {token}."
  | nestingTooDeep limit _ => s!"Expression nests deeper than {limit} levels."
  | tooLarge limit _ => s!"Expression is taller than {limit} levels."

/-- The message of an error, which begins with its place. -/
def message (e : ParseError) : String := s!"Error at offset {e.position}: {e.reason}"

end ParseError

/-- The message of an error, with the name it is about. -/
def EvalError.message : EvalError → String
  | unknownVariable name => s!"Unknown variable '{name}'."
  | unknownFunction name => s!"Unknown function '{name}'."
  | argumentCount name expected found =>
    s!"Function '{name}' expects {expected} argument(s) but got {found}."
  | invalidArgument name details => s!"Invalid argument to '{name}': {details}."

/-- The message of an error, as its kind has it. -/
def Error.message : Error → String
  | parse error => error.message
  | eval error => error.message

end Formula
