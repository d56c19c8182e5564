import Formula.Builtin

/-!
# Handlers

The builtins as a table of handlers. A handler is given its arguments as one list and reads them by
their places; how many it may be given is written beside it in the table. Reading an argument that
is not there is a fault, and so is holding a number between bounds that are not in order. A fault is
no error of a formula: it ends the program.

* `Fault`: what ends the program.
* `Arity`: the numbers of arguments that a handler may be given.
* `Handler.table`: the handlers in the order in which the builtins are listed.
* `Handler.call`: a builtin by its name.
-/

namespace Formula

/-- Why the program is ended: a handler has run on what it cannot take. -/
inductive Fault
  | missingArgument (place count : Nat)
  | disorderedBounds (low high : Float)
deriving DecidableEq

/-- The numbers of arguments that a handler takes. -/
inductive Arity
  | exactly (count : Nat)
  | oneOf (counts : List Nat)
deriving DecidableEq, Repr

namespace Arity

/-- That many arguments are taken. -/
def allows : Arity → Nat → Bool
  | exactly count, n => n == count
  | oneOf counts, n => counts.contains n

/-- The numbers of arguments as messages name them. -/
def text : Arity → String
  | exactly count => toString count
  | oneOf counts => " or ".intercalate (counts.map toString)

end Arity

/-- A builtin as it is kept: the handler runs behind a check of the number of arguments. -/
structure Handler where
  name : String
  arity : Arity
  /-- The result, or why an argument is refused. -/
  run : List Float → Except Fault (Except String Float)

namespace Handler

/-! ## Reading and holding -/

/-- The argument at a place. -/
def argument (args : List Float) (place : Nat) : Except Fault Float :=
  match args[place]? with
  | some x => .ok x
  | none => .error (.missingArgument place args.length)

/-- The number nearest to `x` between two bounds. A NaN is no bound. -/
def between (x low high : Float) : Except Fault Float :=
  if low ≤ high then .ok (if x < low then low else if high < x then high else x)
  else .error (.disorderedBounds low high)

/-! ## The handlers -/

/-- A function of the first argument. -/
def one (f : Float → Float) (args : List Float) : Except Fault (Except String Float) := do
  let x ← argument args 0
  return .ok (f x)

/-- A function of the first two arguments. -/
def two (f : Float → Float → Float) (args : List Float) : Except Fault (Except String Float) := do
  let x ← argument args 0
  let y ← argument args 1
  return .ok (f x y)

/-- Two arguments are a number and a base. In all other cases the base is ten. -/
def log : List Float → Except Fault (Except String Float)
  | [x, base] => .ok (.ok (Builtin.logarithm x base))
  | args => one Float.log10 args

/-- Bounds are looked at before a number is held between them. -/
def clamp (args : List Float) : Except Fault (Except String Float) := do
  let x ← argument args 0
  let low ← argument args 1
  let high ← argument args 2
  if low.isNaN || high.isNaN || high < low then
    return .error s!"lower bound {Double.text low} exceeds upper bound {Double.text high}"
  else
    let y ← between x low high
    return .ok y

/-- The handlers of the builtins. -/
def table : List Handler := [
  ⟨"abs", .exactly 1, one Float.abs⟩,
  ⟨"sqrt", .exactly 1, one Float.sqrt⟩,
  ⟨"sin", .exactly 1, one Float.sin⟩,
  ⟨"cos", .exactly 1, one Float.cos⟩,
  ⟨"tan", .exactly 1, one Float.tan⟩,
  ⟨"exp", .exactly 1, one Float.exp⟩,
  ⟨"ln", .exactly 1, one Float.log⟩,
  ⟨"floor", .exactly 1, one Float.floor⟩,
  ⟨"ceil", .exactly 1, one Float.ceil⟩,
  ⟨"round", .exactly 1, one Float.round⟩,
  ⟨"sign", .exactly 1, one Builtin.sign⟩,
  ⟨"log", .oneOf [1, 2], log⟩,
  ⟨"pow", .exactly 2, two Float.pow⟩,
  ⟨"min", .exactly 2, two Builtin.least⟩,
  ⟨"max", .exactly 2, two Builtin.greatest⟩,
  ⟨"clamp", .exactly 3, clamp⟩]

/-! ## Calls -/

/-- The handler is run if it may be given this number of arguments. -/
def invoke (h : Handler) (args : List Float) : Except Fault (Except EvalError Float) :=
  if h.arity.allows args.length then (h.run args).map (·.mapError (.invalidArgument h.name))
  else .ok (.error (.argumentCount h.name h.arity.text args.length))

/-- The first handler of a name, called. -/
def call (name : String) (args : List Float) : Except Fault (Except EvalError Float) :=
  match table.find? (·.name == name) with
  | none => .ok (.error (.unknownFunction name))
  | some h => h.invoke args

end Handler

end Formula
