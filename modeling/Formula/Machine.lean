import Formula.Parse

/-!
# Reading on a machine

The productions as a machine goes through them. It has one state, which is changed on the way, and
counts the nesting itself. It has no number above a greatest one, `capacity`, and it makes no more
calls inside one another than it is given. Nothing in it says that the productions end.

* `Stop`: why a machine is stopped. This is no error of a formula.
* `Event`: what a machine puts on record.
* `Machine.Run`: what is done on a machine.
* `Machine.advance`, `Machine.nested`: the moves and the nested calls. `Machine.next`: the sums.
* `Machine.expression`: a formula up to the end of the source.
-/

namespace Formula

/-- What stops a machine for good, other than an error of the source. -/
inductive Stop
  /-- A sum is above the capacity, or a difference below zero. -/
  | overflow
  /-- There are no calls left. -/
  | exhausted
deriving DecidableEq, Repr

/-- What a machine has done, and where. -/
inductive Event
  /-- The machine has moved on, to where it now stands. -/
  | moved (c : Cursor)
  /-- A production is to run one level deeper. -/
  | nested (c : Cursor)
  /-- A loop goes into a round: on its operator, or behind a comma. -/
  | round (c : Cursor)

/-- What the productions work on and change. -/
structure Machine where
  cursor : Cursor
  /-- How many levels of nesting are open. -/
  depth : Nat := 0
  /-- What has happened, the last event first. It decides nothing. -/
  log : List Event := []

namespace Machine

/-- What is done on a machine: it is stopped, or comes to an outcome and changes the machine. -/
def Run (α : Type) : Type := Machine → Except Stop (Except ParseError α × Machine)

variable {α β : Type}

/-- Goes on after a success. -/
def Run.resume (f : α → Run β) :
    Except Stop (Except ParseError α × Machine) → Except Stop (Except ParseError β × Machine)
  | .ok (.ok a, m) => f a m
  | .ok (.error e, m) => .ok (.error e, m)
  | .error s => .error s

/-- Steps are taken one after the other, up to the first error. -/
instance : Monad Run where
  pure a m := .ok (.ok a, m)
  bind x f m := Run.resume f (x m)

/-- An outcome that leaves the machine as it is. -/
def ofExcept (outcome : Except ParseError α) : Run α := fun m => .ok (outcome, m)

/-- Ends with an error of the source. -/
def fail (e : ParseError) : Run α := ofExcept (.error e)

/-- Stops the machine. -/
def stop (s : Stop) : Run α := fun _ => .error s

/-- What `production` comes to, be it an error or not. -/
def outcomeOf (production : Run α) : Run (Except ParseError α) := fun m =>
  (production m).map fun r => (.ok r.1, r.2)

/-- The cursor, as it stands now. -/
def here : Run Cursor := fun m => .ok (.ok m.cursor, m)

/-- Puts an event on record. -/
def note (event : Cursor → Event) : Run Unit := fun m =>
  .ok (.ok (), { m with log := event m.cursor :: m.log })

/-- Moves on from the current token. -/
def advance : Run Unit := fun m =>
  match m.cursor.advance with
  | (.ok _, d) => .ok (.ok (), { m with cursor := d, log := .moved d :: m.log })
  | (.error e, d) => .ok (.error (.lexical e), { m with cursor := d })

/-- Moves over a closing parenthesis. -/
def closing : Run Unit := do
  let c ← here
  if c.token = some .closeParen then advance else fail (.expectedClosing c.position)

/-- How many levels of nesting are open now. -/
def openLevels : Run Nat := fun m => .ok (.ok m.depth, m)

/-- Sets how many levels of nesting are open. -/
def setDepth (n : Nat) : Run Unit := fun m => .ok (.ok (), { m with depth := n })

/-- One less than `n`, if there is such a number. -/
def previous (n : Nat) : Run Nat := if 0 < n then pure (n - 1) else stop .overflow

section Productions

variable (capacity : Nat) (limits : Limits)

/-- One more than `n`, if there is such a number. -/
def next (n : Nat) : Run Nat := if n < capacity then pure (n + 1) else stop .overflow

/-- Runs `production` one level deeper, if the limits have room for it, and comes back up, whatever
it has come to. -/
def nested (production : Run α) : Run α := do
  note .nested
  let c ← here
  let n ← openLevels
  if limits.depth ≤ n then fail (.nestingTooDeep limits.depth c.position)
  else
    setDepth (← next capacity n)
    let outcome ← outcomeOf production
    setDepth (← previous (← openLevels))
    ofExcept outcome

/-- The tree `e` of height `height`, unless it is too high. -/
def accept (e : Expr) (height : Nat) : Run Subtree := do
  let c ← here
  ofExcept (limits.accept c.position e height)

mutual

/-- A number, a name, a call, a group, or a prefix with its operand. -/
def operand : Nat → Run Subtree
  | 0 => stop .exhausted
  | calls + 1 => do
    let c ← here
    match c.token with
    | some .plus =>
      advance
      nested capacity limits (operand calls)
    | some .minus =>
      advance
      let inner ← nested capacity limits (operand calls)
      let height ← next capacity inner.height
      accept limits (.neg inner.expr) height
    | some (.number value) =>
      let leaf ← accept limits (.number value) 1
      advance
      return leaf
    | some (.name name) =>
      advance
      let d ← here
      if d.token = some .openParen then
        advance
        let found ← nested capacity limits (arguments calls)
        let height ← next capacity found.2
        accept limits (.call name found.1) height
      else accept limits (.var name) 1
    | some .openParen =>
      advance
      let inner ← nested capacity limits (level .sum calls)
      closing
      return inner
    | none => fail (.unexpectedEnd c.position)
    | some token => fail (.unexpectedToken (Token.describe token) c.position)

/-- A formula of a level: one of the level below, or several joined by operators. -/
def level : Level → Nat → Run Subtree
  | _, 0 => stop .exhausted
  | .operand, calls + 1 => operand calls
  | .product, calls + 1 => do
    let first ← level .operand calls
    chain .product first calls
  | .sum, calls + 1 => do
    let first ← level .product calls
    chain .sum first calls

/-- The rounds of a loop over the operators of a level, each with its right operand. -/
def chain (l : Level) (left : Subtree) : Nat → Run Subtree
  | 0 => stop .exhausted
  | calls + 1 => do
    let c ← here
    match c.operator? l with
    | none => return left
    | some operator =>
      note .round
      advance
      let right ← level l.below calls
      let height ← next capacity (max left.height right.height)
      let left ← accept limits (.binary operator left.expr right.expr) height
      chain l left calls

/-- The arguments of a call up to its closing parenthesis, with the greatest of their heights. -/
def arguments : Nat → Run (List Expr × Nat)
  | 0 => stop .exhausted
  | calls + 1 => do
    let c ← here
    if c.token = some .closeParen then
      advance
      return ([], 0)
    else someArguments calls

/-- The rounds of a loop over arguments. -/
def someArguments : Nat → Run (List Expr × Nat)
  | 0 => stop .exhausted
  | calls + 1 => do
    let first ← level .sum calls
    let d ← here
    if d.token = some .comma then
      advance
      note .round
      let others ← someArguments calls
      return (first.expr :: others.1, max first.height others.2)
    else
      closing
      return ([first.expr], first.height)

end

/-- A formula up to the end of the source. -/
def expression (calls : Nat) : Run Expr := do
  let tree ← level capacity limits .sum calls
  let c ← here
  match c.token with
  | none => return tree.expr
  | some token => fail (.trailingTokens (Token.describe token) c.position)

end Productions

end Machine

end Formula
