import Formula.Error
import Formula.Item

/-!
# Cursors

A cursor stands on a token of a source, or at its end, and moves over the items that follow. Bad
text is passed like any other item, but it makes the move fail.

* `Cursor.advance`: to the next item. A failed move leaves token and position as they were.
* `Cursor.take`, `Cursor.next?`: the token moved away from; a failed move leaves the end as token.
* `Cursor.unread`: what is still ahead; **`unread_advance_lt`**, moving on from a token lessens it.
* `tokenize`: the tokens of a source without bad text.
-/

namespace Formula

/-- A place in the items of a source, at one of them or at the end. -/
structure Cursor where
  /-- The current token, `none` at the end. -/
  token : Option Token
  /-- Where the current token starts. -/
  position : Nat
  /-- The items after the current one. -/
  rest : List Item
  /-- The length of the source in bytes, where its end is. -/
  finish : Nat
deriving DecidableEq

namespace Cursor

/-- Moves to the next item. -/
def advance (c : Cursor) : Except LexicalError Unit × Cursor :=
  match c.rest with
  | [] => (.ok (), { c with token := none, position := c.finish })
  | ⟨.token token, position⟩ :: rest => (.ok (), { c with token := some token, position, rest })
  | ⟨.bad text, position⟩ :: rest => (.error ⟨text, position⟩, { c with rest })

/-- Takes the current token and moves to the next item. -/
def take (c : Cursor) : Except LexicalError (Option Token) × Cursor :=
  let (outcome, next) := advance { c with token := none }
  (outcome.map fun _ => c.token, next)

/-- Takes the current token, as long as there is one. -/
def next? (c : Cursor) : Option (Except LexicalError Token) × Cursor :=
  match c.token with
  | none => (none, c)
  | some token =>
    let (outcome, next) := c.take
    (some (outcome.map fun _ => token), next)

/-- The cursor in front of the first item. -/
def before (source : String) : Cursor := ⟨none, 0, Item.ofSource source, source.utf8ByteSize⟩

/-- The cursor on the first item. -/
def ofSource (source : String) : Except LexicalError Cursor :=
  let (outcome, c) := (before source).advance
  outcome.map fun _ => c

/-! ## What is ahead -/

/-- The items ahead, the current token among them. -/
def unread (c : Cursor) : Nat := c.rest.length + if c.token.isSome then 1 else 0

theorem unread_advance_lt {c : Cursor} (h : c.token.isSome) : c.advance.2.unread < c.unread := by
  simp only [unread, h, if_true]
  rcases hr : c.rest with _ | ⟨⟨_ | _, _⟩, _⟩
  · simp [advance, hr]
  · simp [advance, hr]
  · simp [advance, hr, h]

theorem unread_take_lt {c : Cursor} (h : c.token.isSome) : c.take.2.unread < c.unread := by
  simp only [unread, h, if_true]
  rcases hr : c.rest with _ | ⟨⟨_ | _, _⟩, _⟩
  · simp [take, advance, hr]
  · simp [take, advance, hr]
  · simp only [take, advance, hr, List.length_cons]
    exact Nat.lt_succ_of_lt (Nat.lt_succ_self _)

/-- What `next?` yields until it ends. -/
def remaining (c : Cursor) : List (Except LexicalError Token) × Cursor :=
  if h : c.token.isSome then
    let (others, last) := remaining c.take.2
    (c.take.1.map (fun _ => c.token.get h) :: others, last)
  else ([], c)
termination_by c.unread
decreasing_by exact unread_take_lt h

end Cursor

/-- The tokens of a source, or its first bad text. -/
def tokenize (source : String) : Except LexicalError (List Token) :=
  (Item.ofSource source).mapM fun
    | ⟨.token token, _⟩ => .ok token
    | ⟨.bad text, position⟩ => .error ⟨text, position⟩

end Formula
