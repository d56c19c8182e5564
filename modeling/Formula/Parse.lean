import Formula.Cursor
import Formula.Expr

/-!
# Reading expressions

A formula is a sum of products of operands:

* a sum is a product, followed by further products after `+` and `-`;
* a product is an operand, followed by further operands after `*` and `/`;
* an operand is a number, a name, a call `name(sum, …)`, a group `(sum)` or an operand after a
  prefix `+` or `-`.

Operations of one level group to the left. Groups, calls and prefixes nest; the nesting is held
below `Limits.depth` and the height of every tree below `Limits.height`.

* `Reading`: what a production makes of the items at a cursor, and where it leaves the cursor. It
  carries the reason why the productions end: no cursor moves back.
* `operand`, `level`, `chain`, `arguments`: the productions.
* `Cursor.expression`: a formula up to the end of the source. It may be asked for again whatever the
  outcome was.
* `parse`: the formula of a source.
-/

namespace Formula

/-- How deep a source may nest, and how high a tree may be. -/
structure Limits where
  depth : Nat := 256
  height : Nat := 1024
deriving DecidableEq, Repr

/-- A tree and its height. -/
structure Subtree where
  expr : Expr
  height : Nat

/-- The tree `e` of height `height`, unless it is too high. -/
def Limits.accept (limits : Limits) (position : Nat) (e : Expr) (height : Nat) :
    Except ParseError Subtree :=
  if limits.height < height then .error (.tooLarge limits.height position) else .ok ⟨e, height⟩

/-- The levels of a formula. A sum is made of products, a product of operands. -/
inductive Level
  | operand
  | product
  | sum
deriving DecidableEq, Repr

/-- What a level is made of. -/
def Level.below : Level → Level
  | operand => operand
  | product => operand
  | sum => product

/-- How many levels are below. -/
@[simp]
def Level.rank : Level → Nat
  | operand => 0
  | product => 1
  | sum => 2

/-- The level that an operator joins. -/
def Operator.level : Operator → Level
  | add => .sum
  | sub => .sum
  | mul => .product
  | div => .product

/-- The operator that a token stands for, if it stands for one. -/
def Operator.ofToken? : Token → Option Operator
  | .plus => some add
  | .minus => some sub
  | .star => some mul
  | .slash => some div
  | _ => none

/-- The current token as an operator of a level. -/
def Cursor.operator? (c : Cursor) (level : Level) : Option Operator :=
  (c.token.bind Operator.ofToken?).filter (·.level = level)

theorem Cursor.isSome_of_operator? {c : Cursor} {l : Level} {o : Operator}
    (h : c.operator? l = some o) : c.token.isSome := by
  cases ht : c.token with
  | none => simp [operator?, ht] at h
  | some => rfl

/-! ## Readings -/

/-- The outcome of a production that started at `c`, and the cursor it leaves, which is not behind
`c`. -/
abbrev Reading (c : Cursor) (α : Type) :=
  { r : Except ParseError α × Cursor // r.2.unread ≤ c.unread }

namespace Reading

variable {c d : Cursor} {α β : Type}

/-- An outcome that leaves the cursor where it is. -/
@[inline]
def stay (c : Cursor) (outcome : Except ParseError α) : Reading c α :=
  ⟨(outcome, c), Nat.le_refl _⟩

/-- A reading that started further on. -/
@[inline]
def since (h : d.unread ≤ c.unread) (r : Reading d α) : Reading c α := ⟨r.1, Nat.le_trans r.2 h⟩

/-- Continues after a success, from where it left the cursor. -/
@[inline]
def andThen (r : Reading c α) (k : α → (d : Cursor) → d.unread ≤ c.unread → Reading d β) :
    Reading c β :=
  match r with
  | ⟨(.ok a, d), h⟩ => since h (k a d h)
  | ⟨(.error e, d), h⟩ => ⟨(.error e, d), h⟩

end Reading

namespace Cursor

variable {α : Type}

/-- Moves on from a token and continues there. -/
@[inline]
def past (c : Cursor) (h : c.token.isSome) (k : (d : Cursor) → d.unread < c.unread → Reading d α) :
    Reading c α :=
  match hd : c.advance with
  | (.ok _, d) =>
    have hlt : d.unread < c.unread := by simpa [hd] using unread_advance_lt h
    .since (Nat.le_of_lt hlt) (k d hlt)
  | (.error e, d) =>
    ⟨(.error (.lexical e), d), Nat.le_of_lt (by simpa [hd] using unread_advance_lt h)⟩

/-- Moves over a closing parenthesis. -/
def closing (c : Cursor) : Reading c Unit :=
  if h : c.token = some .closeParen then c.past (by simp [h]) fun d _ => .stay d (.ok ())
  else .stay c (.error (.expectedClosing c.position))

/-- One level of nesting deeper, if there is room for it. -/
@[inline]
def nested (c : Cursor) (limits : Limits) (depth : Nat) (k : Nat → Reading c α) : Reading c α :=
  if limits.depth ≤ depth then .stay c (.error (.nestingTooDeep limits.depth c.position))
  else k (depth + 1)

end Cursor

/-! ## Productions -/

namespace Cursor

mutual

/-- A number, a name, a call, a group, or a prefix with its operand. -/
def operand (limits : Limits) (depth : Nat) (c : Cursor) : Reading c Subtree :=
  match h : c.token with
  | some .plus =>
    c.past (by simp [h]) fun d _ => d.nested limits depth fun deeper => operand limits deeper d
  | some .minus =>
    c.past (by simp [h]) fun d _ =>
      (d.nested limits depth fun deeper => operand limits deeper d).andThen fun inner d _ =>
        .stay d (limits.accept d.position (.neg inner.expr) (inner.height + 1))
  | some (.number value) =>
    match limits.accept c.position (.number value) 1 with
    | .ok leaf => c.past (by simp [h]) fun d _ => .stay d (.ok leaf)
    | .error e => .stay c (.error e)
  | some (.name name) =>
    c.past (by simp [h]) fun d _ =>
      if hd : d.token = some .openParen then
        d.past (by simp [hd]) fun d _ =>
          (d.nested limits depth fun deeper => arguments limits deeper d).andThen
            fun (inner, height) d _ =>
              .stay d (limits.accept d.position (.call name inner) (height + 1))
      else .stay d (limits.accept d.position (.var name) 1)
  | some .openParen =>
    c.past (by simp [h]) fun d _ =>
      (d.nested limits depth fun deeper => level .sum limits deeper d).andThen fun inner d _ =>
        d.closing.andThen fun _ d _ => .stay d (.ok inner)
  | none => .stay c (.error (.unexpectedEnd c.position))
  | some token => .stay c (.error (.unexpectedToken (Token.describe token) c.position))
termination_by (c.unread, 0)

/-- A formula of a level: one of the level below, or several joined by operators. -/
def level (l : Level) (limits : Limits) (depth : Nat) (c : Cursor) : Reading c Subtree :=
  match l with
  | .operand => operand limits depth c
  | .product =>
    (level .operand limits depth c).andThen fun first d _ => chain .product limits depth first d
  | .sum => (level .product limits depth c).andThen fun first d _ => chain .sum limits depth first d
termination_by (c.unread, l.rank + 1)
decreasing_by
  · exact Prod.Lex.right _ (by simp)
  · exact Prod.Lex.right _ (by simp)
  · exact Prod.Lex.right' _ ‹_› (by simp)
  · exact Prod.Lex.right _ (by simp)
  · exact Prod.Lex.right' _ ‹_› (by simp)

/-- The operators of a level that follow `left`, each with its right operand, grouped to the
left. -/
def chain (l : Level) (limits : Limits) (depth : Nat) (left : Subtree) (c : Cursor) :
    Reading c Subtree :=
  match h : c.operator? l with
  | none => .stay c (.ok left)
  | some operator =>
    c.past (isSome_of_operator? h) fun d _ =>
      (level l.below limits depth d).andThen fun right d _ =>
        match limits.accept d.position (.binary operator left.expr right.expr)
            (max left.height right.height + 1) with
        | .ok left => chain l limits depth left d
        | .error e => .stay d (.error e)
termination_by (c.unread, 0)

/-- The arguments of a call up to its closing parenthesis, with the greatest of their heights. -/
def arguments (limits : Limits) (depth : Nat) (c : Cursor) : Reading c (List Expr × Nat) :=
  if h : c.token = some .closeParen then c.past (by simp [h]) fun d _ => .stay d (.ok ([], 0))
  else someArguments limits depth c
termination_by (c.unread, 5)

/-- The arguments of a call that has at least one. -/
def someArguments (limits : Limits) (depth : Nat) (c : Cursor) : Reading c (List Expr × Nat) :=
  (level .sum limits depth c).andThen fun first d _ =>
    if hd : d.token = some .comma then
      (d.past (by simp [hd]) fun d _ => someArguments limits depth d).andThen
        fun (others, height) d _ => .stay d (.ok (first.expr :: others, max first.height height))
    else d.closing.andThen fun _ d _ => .stay d (.ok ([first.expr], first.height))
termination_by (c.unread, 4)

end

/-- A formula that ends where the source ends. -/
def expression (limits : Limits) (c : Cursor) : Except ParseError Expr × Cursor :=
  match (level .sum limits 0 c).1 with
  | (.ok tree, d) =>
    match d.token with
    | none => (.ok tree.expr, d)
    | some token => (.error (.trailingTokens (Token.describe token) d.position), d)
  | (.error e, d) => (.error e, d)

end Cursor

/-- The formula of a source. -/
def parse (source : String) (limits : Limits := {}) : Except ParseError Expr :=
  match Cursor.ofSource source with
  | .ok c => (c.expression limits).1
  | .error e => .error (.lexical e)

end Formula
