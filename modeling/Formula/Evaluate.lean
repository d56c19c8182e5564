import Formula.Parse

/-!
# Evaluating expressions

A tree is evaluated in a context that answers for its names. The answers are values of a monad, so a
context may fail, and may answer by what it was asked before.

* `Context`: the value of a variable and the result of a call.
* `Expr.evaluate`: the value of a tree. Left operands come before right ones and arguments before
  their call. A chain of operations, however long, takes one activation: its right operands wait in
  a list while the leftmost operand is sought.
* `Context.ofVariables`: a context without functions.
* `evaluate`: the value of a source.
-/

namespace Formula

/-- What a formula asks of its surroundings. -/
structure Context (m : Type → Type) where
  resolve : String → m Float
  call : String → List Float → m Float

namespace Expr

variable {m : Type → Type} [Monad m]

/-- Applies to a value the operations that wait for it, one after the other. -/
def resume (waiting : List (Float → m Float)) (x : Float) : m Float :=
  waiting.foldlM (fun x operation => operation x) x

variable (context : Context m)

mutual

/-- The value of a tree after the operations `waiting` for it, the next one first. -/
def evaluateThen : Expr → List (Float → m Float) → m Float
  | number value, waiting => resume waiting value
  | var name, waiting => do resume waiting (← context.resolve name)
  | neg operand, waiting => do resume waiting (-(← operand.evaluateThen []))
  | binary operator left right, waiting =>
    left.evaluateThen ((fun x => return operator.apply x (← right.evaluateThen [])) :: waiting)
  | call function arguments, waiting => do
    let values ← evaluateAll arguments
    resume waiting (← context.call function values)

/-- The values of some trees, from the first to the last. -/
def evaluateAll : List Expr → m (List Float)
  | [] => return []
  | e :: es => do
    let x ← e.evaluateThen []
    let xs ← evaluateAll es
    return x :: xs

end

/-- The value of a tree. -/
def evaluate (e : Expr) : m Float := e.evaluateThen context []

end Expr

/-- A context that knows variables and no function. -/
def Context.ofVariables (value? : String → Option Float) : Context (Except EvalError) where
  resolve name :=
    match value? name with
    | some value => .ok value
    | none => .error (.unknownVariable name)
  call name _ := .error (.unknownFunction name)

/-- Reads a source, with the limits that it has by default, and evaluates it. -/
def evaluate (source : String) (context : Context (Except EvalError)) : Except Error Float :=
  match parse source with
  | .error e => .error (.parse e)
  | .ok tree => (tree.evaluate context).mapError .eval

end Formula
