import Formula.Double
import Formula.Error

/-!
# Builtin functions and constants

* `Operation`: a function together with the numbers of arguments that it takes.
* **`Operation.apply_eq_none_iff`**: an operation refuses exactly the other numbers of arguments.
* `Builtin.all`, `Builtin.constants`: the builtins in the order in which they are listed.
* `Builtin.call`: a builtin by its name.
-/

namespace Formula

/-- How a function takes its arguments. -/
inductive Operation
  | one (f : Float → Float)
  | oneOrTwo (f : Float → Float) (g : Float → Float → Float)
  | two (f : Float → Float → Float)
  | three (f : Float → Float → Float → Except String Float)

namespace Operation

/-- The numbers of arguments that an operation takes. -/
def counts : Operation → List Nat
  | one _ => [1]
  | oneOrTwo _ _ => [1, 2]
  | two _ => [2]
  | three _ => [3]

/-- The result, unless there is another number of arguments. -/
def apply : Operation → List Float → Option (Except String Float)
  | one f, [x] => some (.ok (f x))
  | oneOrTwo f _, [x] => some (.ok (f x))
  | oneOrTwo _ g, [x, y] => some (.ok (g x y))
  | two f, [x, y] => some (.ok (f x y))
  | three f, [x, y, z] => some (f x y z)
  | _, _ => none

theorem apply_eq_none_iff (o : Operation) (args : List Float) :
    o.apply args = none ↔ args.length ∉ o.counts := by
  rcases args with _ | ⟨x, _ | ⟨y, _ | ⟨z, _ | ⟨w, args⟩⟩⟩⟩ <;> cases o <;> simp [apply, counts]

end Operation

/-- A named function that is there from the start. -/
structure Builtin where
  name : String
  operation : Operation

namespace Builtin

/-! ## The functions -/

/-- The sign of a number as `1` or `-1`. Zeros and NaN are their own. -/
def sign (x : Float) : Float := if 0 < x then 1 else if x < 0 then -1 else x

/-- The smaller number, or the other one if one is NaN. -/
def least (x y : Float) : Float :=
  if x.isNaN then y else if y.isNaN then x else if y < x then y else x

/-- The greater number, or the other one if one is NaN. -/
def greatest (x y : Float) : Float :=
  if x.isNaN then y else if y.isNaN then x else if x < y then y else x

/-- The logarithm of `x` to any base. -/
def logarithm (x base : Float) : Float := x.log / base.log

/-- The number nearest to `x` between two bounds, which have to be in order. A NaN stays. -/
def clamp (x low high : Float) : Except String Float :=
  if low.isNaN || high.isNaN || high < low then
    .error s!"lower bound {Double.text low} exceeds upper bound {Double.text high}"
  else .ok (if x < low then low else if high < x then high else x)

/-- The builtins. -/
def all : List Builtin := [
  ⟨"abs", .one Float.abs⟩,
  ⟨"sqrt", .one Float.sqrt⟩,
  ⟨"sin", .one Float.sin⟩,
  ⟨"cos", .one Float.cos⟩,
  ⟨"tan", .one Float.tan⟩,
  ⟨"exp", .one Float.exp⟩,
  ⟨"ln", .one Float.log⟩,
  ⟨"floor", .one Float.floor⟩,
  ⟨"ceil", .one Float.ceil⟩,
  ⟨"round", .one Float.round⟩,
  ⟨"sign", .one sign⟩,
  ⟨"log", .oneOrTwo Float.log10 logarithm⟩,
  ⟨"pow", .two Float.pow⟩,
  ⟨"min", .two least⟩,
  ⟨"max", .two greatest⟩,
  ⟨"clamp", .three clamp⟩]

/-- The doubles nearest to the two constants. -/
def constants : List (String × Float) := [("pi", 3.141592653589793), ("e", 2.718281828459045)]

/-! ## Calls -/

/-- The numbers of arguments as messages name them. -/
def expected (b : Builtin) : String := " or ".intercalate (b.operation.counts.map toString)

/-- The result of a call, or the error that names the builtin. -/
def invoke (b : Builtin) (args : List Float) : Except EvalError Float :=
  match b.operation.apply args with
  | none => .error (.argumentCount b.name b.expected args.length)
  | some (.error details) => .error (.invalidArgument b.name details)
  | some (.ok value) => .ok value

/-- The builtin of a name, called. -/
def call (name : String) (args : List Float) : Except EvalError Float :=
  match all.find? (·.name == name) with
  | none => .error (.unknownFunction name)
  | some b => b.invoke args

end Builtin

end Formula
