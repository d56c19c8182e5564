import Formula.Double
import Formula.Name
import Formula.Text.Blank

/-!
# Definitions

A definition is a text `NAME=VALUE`, with blanks allowed around both. The name ends at the first
`=`. The faults of a text are looked for in the order in which `DefinitionError` lists them.
-/

namespace Formula

/-- A name with the value that it is given. -/
structure Definition where
  name : String
  value : Float

/-- Why a text is no definition. -/
inductive DefinitionError
  | noValue (text : String)
  | badName (name : String)
  | badValue (name : String) (error : Double.ReadError)
deriving DecidableEq, Repr

/-- The message of an error, with the piece of text it is about. -/
def DefinitionError.message : DefinitionError → String
  | noValue text => s!"expected NAME=VALUE, found '{text}'"
  | badName name => s!"'{name}' is not a valid variable name"
  | badValue name error => s!"invalid value for '{name}': {error.message}"

namespace Definition

/-- The definition in a text: the name up to the first `=`, and the value behind it. -/
def ofChars (cs : List Char) : Except DefinitionError Definition :=
  match cs.dropWhile (· ≠ '=') with
  | [] => .error (.noValue (String.ofList cs))
  | _ :: value =>
    let name := trim (cs.takeWhile (· ≠ '='))
    if isName name then
      match Double.read (trim value) with
      | .ok value => .ok ⟨String.ofList name, value⟩
      | .error e => .error (.badValue (String.ofList name) e)
    else .error (.badName (String.ofList name))

/-- The definition in a text, as `ofChars` has it. -/
def ofText (text : String) : Except DefinitionError Definition := ofChars text.toList

end Definition

end Formula
