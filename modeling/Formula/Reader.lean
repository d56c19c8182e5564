import Formula.Parse

/-!
# Readers

A reader asks a cursor for formulas, again and again. It keeps count of the nesting itself: the
depth is set one higher before a nested part and one lower behind it, whatever the part has come to.

* `Reader`: a cursor, the limits and the depth, with a record of what the depth has been set to.
* `Reader.Run`: what a production makes of a reader, and the reader that it leaves.
* `Reader.nested`: the one place where the depth changes.
* `Reader.expression`: a formula up to the end of the source.
-/

namespace Formula

/-- A place in a source, the limits of a reading, and the nesting that it counts itself. -/
structure Reader where
  cursor : Cursor
  limits : Limits
  /-- How many levels of nesting are open. -/
  depth : Nat := 0
  /-- What the depth has been set to, the last value first. -/
  trail : List Nat := []

namespace Reader

/-- Sets the depth, and puts it on record. -/
def setDepth (r : Reader) (n : Nat) : Reader := { r with depth := n, trail := n :: r.trail }

/-- The outcome of a production that started at `r`, and the reader it leaves, whose cursor is not
behind that of `r`. -/
abbrev Run (r : Reader) (α : Type) :=
  { o : Except ParseError α × Reader // o.2.cursor.unread ≤ r.cursor.unread }

namespace Run

variable {r s : Reader} {α β : Type}

/-- An outcome that leaves the reader as it is. -/
@[inline]
def stay (r : Reader) (outcome : Except ParseError α) : Run r α := ⟨(outcome, r), Nat.le_refl _⟩

/-- A run that started further on. -/
@[inline]
def since (h : s.cursor.unread ≤ r.cursor.unread) (o : Run s α) : Run r α :=
  ⟨o.1, Nat.le_trans o.2 h⟩

/-- Continues after a success, with the reader that it left. -/
@[inline]
def andThen (o : Run r α)
    (k : α → (s : Reader) → s.cursor.unread ≤ r.cursor.unread → Run s β) : Run r β :=
  match o with
  | ⟨(.ok a, s), h⟩ => since h (k a s h)
  | ⟨(.error e, s), h⟩ => ⟨(.error e, s), h⟩

end Run

variable {α : Type}

/-- Moves on from a token and continues there. -/
@[inline]
def past (r : Reader) (h : r.cursor.token.isSome)
    (k : (s : Reader) → s.cursor.unread < r.cursor.unread → Run s α) : Run r α :=
  match hd : r.cursor.advance with
  | (.ok _, d) =>
    have hlt : d.unread < r.cursor.unread := by simpa [hd] using Cursor.unread_advance_lt h
    .since (Nat.le_of_lt hlt) (k { r with cursor := d } hlt)
  | (.error e, d) =>
    ⟨(.error (.lexical e), { r with cursor := d }),
      Nat.le_of_lt (by simpa [hd] using Cursor.unread_advance_lt h)⟩

/-- Moves over a closing parenthesis. -/
def closing (r : Reader) : Run r Unit :=
  if h : r.cursor.token = some .closeParen then
    r.past (by simp [h]) fun s _ => .stay s (.ok ())
  else .stay r (.error (.expectedClosing r.cursor.position))

/-- Runs a production one level deeper, if there is room for it, and comes back up. -/
@[inline]
def nested (r : Reader)
    (production : (s : Reader) → s.cursor.unread ≤ r.cursor.unread → Run s α) : Run r α :=
  if r.limits.depth ≤ r.depth then
    .stay r (.error (.nestingTooDeep r.limits.depth r.cursor.position))
  else
    let o := production (r.setDepth (r.depth + 1)) (Nat.le_refl _)
    ⟨(o.1.1, o.1.2.setDepth (o.1.2.depth - 1)), o.2⟩

/-- The tree `e` of height `height`, unless it is too high. -/
def accept (r : Reader) (e : Expr) (height : Nat) : Except ParseError Subtree :=
  r.limits.accept r.cursor.position e height

/-! ## Productions -/

mutual

/-- A number, a name, a call, a group, or a prefix with its operand. -/
def operand (r : Reader) : Run r Subtree :=
  match h : r.cursor.token with
  | some .plus => r.past (by simp [h]) fun r _ => r.nested fun r _ => r.operand
  | some .minus =>
    r.past (by simp [h]) fun r _ =>
      (r.nested fun r _ => r.operand).andThen fun inner r _ =>
        .stay r (r.accept (.neg inner.expr) (inner.height + 1))
  | some (.number value) =>
    match r.accept (.number value) 1 with
    | .ok leaf => r.past (by simp [h]) fun r _ => .stay r (.ok leaf)
    | .error e => .stay r (.error e)
  | some (.name name) =>
    r.past (by simp [h]) fun r _ =>
      if hr : r.cursor.token = some .openParen then
        r.past (by simp [hr]) fun r _ =>
          (r.nested fun r _ => r.arguments).andThen fun (inner, height) r _ =>
            .stay r (r.accept (.call name inner) (height + 1))
      else .stay r (r.accept (.var name) 1)
  | some .openParen =>
    r.past (by simp [h]) fun r _ =>
      (r.nested fun r _ => r.level .sum).andThen fun inner r _ =>
        r.closing.andThen fun _ r _ => .stay r (.ok inner)
  | none => .stay r (.error (.unexpectedEnd r.cursor.position))
  | some token => .stay r (.error (.unexpectedToken (Token.describe token) r.cursor.position))
termination_by (r.cursor.unread, 0)

/-- A formula of a level: one of the level below, or several joined by operators. -/
def level (r : Reader) (l : Level) : Run r Subtree :=
  match l with
  | .operand => r.operand
  | .product => (r.level .operand).andThen fun first r _ => r.chain .product first
  | .sum => (r.level .product).andThen fun first r _ => r.chain .sum first
termination_by (r.cursor.unread, l.rank + 1)
decreasing_by
  · exact Prod.Lex.right _ (by simp)
  · exact Prod.Lex.right _ (by simp)
  · exact Prod.Lex.right' _ ‹_› (by simp)
  · exact Prod.Lex.right _ (by simp)
  · exact Prod.Lex.right' _ ‹_› (by simp)

/-- The operators of a level behind `left`, each with its right operand, grouped to the left. -/
def chain (r : Reader) (l : Level) (left : Subtree) : Run r Subtree :=
  match h : r.cursor.operator? l with
  | none => .stay r (.ok left)
  | some operator =>
    r.past (Cursor.isSome_of_operator? h) fun r _ =>
      (r.level l.below).andThen fun right r _ =>
        match r.accept (.binary operator left.expr right.expr)
            (max left.height right.height + 1) with
        | .ok left => r.chain l left
        | .error e => .stay r (.error e)
termination_by (r.cursor.unread, 0)

/-- The arguments of a call up to its closing parenthesis, with the greatest of their heights. -/
def arguments (r : Reader) : Run r (List Expr × Nat) :=
  if h : r.cursor.token = some .closeParen then
    r.past (by simp [h]) fun r _ => .stay r (.ok ([], 0))
  else r.someArguments
termination_by (r.cursor.unread, 5)

/-- The arguments of a call that has at least one. -/
def someArguments (r : Reader) : Run r (List Expr × Nat) :=
  (r.level .sum).andThen fun first r _ =>
    if hr : r.cursor.token = some .comma then
      (r.past (by simp [hr]) fun r _ => r.someArguments).andThen fun (others, height) r _ =>
        .stay r (.ok (first.expr :: others, max first.height height))
    else r.closing.andThen fun _ r _ => .stay r (.ok ([first.expr], first.height))
termination_by (r.cursor.unread, 4)

end

/-- A formula up to the end of the source. It may be asked for again whatever the outcome was. -/
def expression (r : Reader) : Except ParseError Expr × Reader :=
  match (r.level .sum).1 with
  | (.ok tree, s) =>
    match s.cursor.token with
    | none => (.ok tree.expr, s)
    | some token => (.error (.trailingTokens (Token.describe token) s.cursor.position), s)
  | (.error e, s) => (.error e, s)

end Reader

end Formula
