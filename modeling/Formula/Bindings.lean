import Std.Data.ExtTreeMap
import Formula.Builtin
import Formula.Evaluate
import Formula.Text.Quoted

/-!
# Bindings

Bindings give values to variables and meanings to functions. The two are kept apart, so a variable
and a function may share a name, and in each the last writing of a name counts.

* `Bindings.set`, `Bindings.erase`, `Bindings.define`: the writings.
* `Bindings.install`, `Bindings.builtin`: the builtins, written over what there was.
* `Bindings.context`: the context that answers by the bindings.
* `Bindings.describe`: a listing of the variables with their values and of the functions.
-/

namespace Formula

/-- What a function gives for a list of arguments. -/
abbrev Function := List Float → Except EvalError Float

/-- Variables and functions by name. The two do not share their names. -/
structure Bindings where
  values : Std.ExtTreeMap String Float
  functions : Std.ExtTreeMap String Function

namespace Bindings

/-- Nothing is bound. -/
def empty : Bindings := ⟨∅, ∅⟩

/-- The value of a variable, if it is bound. -/
def value? (b : Bindings) (name : String) : Option Float := b.values[name]?

/-- A function of that name is bound. -/
def hasFunction (b : Bindings) (name : String) : Bool := b.functions.contains name

/-- Gives a variable a value, and tells the value that it had. -/
def set (b : Bindings) (name : String) (value : Float) : Option Float × Bindings :=
  (b.value? name, { b with values := b.values.insert name value })

/-- Takes the value of a variable away, and tells it. -/
def erase (b : Bindings) (name : String) : Option Float × Bindings :=
  (b.value? name, { b with values := b.values.erase name })

/-- Binds a function, in place of the one that had the name. -/
def define (b : Bindings) (name : String) (function : Function) : Bindings :=
  { b with functions := b.functions.insert name function }

/-- Writes the values of several variables, one after the other. -/
def setAll (b : Bindings) (values : List (String × Float)) : Bindings :=
  values.foldl (fun b (name, value) => (b.set name value).2) b

/-- Writes the builtin functions and constants. -/
def install (b : Bindings) : Bindings :=
  (Builtin.all.foldl (fun b f => b.define f.name f.invoke) b).setAll Builtin.constants

/-- The builtins and nothing else. -/
def builtin : Bindings := empty.install

/-! ## As contexts -/

/-- The value of a variable, or that it is unknown. -/
def resolve (b : Bindings) (name : String) : Except EvalError Float :=
  match b.value? name with
  | some value => .ok value
  | none => .error (.unknownVariable name)

/-- What a function gives, or that it is unknown. -/
def call (b : Bindings) (name : String) (args : List Float) : Except EvalError Float :=
  match b.functions[name]? with
  | some function => function args
  | none => .error (.unknownFunction name)

/-- The bindings as the context of an evaluation. -/
def context (b : Bindings) : Context (Except EvalError) := ⟨b.resolve, b.call⟩

/-! ## Listing -/

/-- The variables with their values and the names of the functions, both by name. -/
def describe (b : Bindings) : String :=
  let values := b.values.toList.map fun (name, value) =>
    Quoted.text name ++ ": " ++ String.ofList (Double.write Double.detailed value)
  "MapContext \x7b variables: \x7b" ++ ", ".intercalate values ++ "\x7d, functions: [" ++
    ", ".intercalate (b.functions.keys.map Quoted.text) ++ "] \x7d"

end Bindings

end Formula
