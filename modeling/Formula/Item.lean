import Formula.Text.Blank
import Formula.Token

/-!
# The items of a source

A source is cut, from the left and between blanks, into the longest pieces that spell a token; a
character that can start none, and a point without a digit, is a piece of bad text. Each piece is an
item and has the byte offset of its first character.

* `Lexeme.first`: the first piece of a text that does not begin with a blank.
* **`Lexeme.spelling_first`**: the piece and the rest are the text.
* `Item.ofChars`, `Item.ofSource`: the items of a text; `ofChars_nil`, `ofChars_blank` and
  `ofChars_lexeme` are their equations.
-/

namespace Formula

/-- A token or a piece of text that is none. -/
inductive Piece
  | token (token : Token)
  | bad (text : String)
deriving DecidableEq

/-- A piece and the byte offset of its first character. -/
structure Item where
  piece : Piece
  position : Nat
deriving DecidableEq

/-- A piece as it is written. -/
structure Lexeme where
  piece : Piece
  spelling : List Char

/-! ## Lengths in bytes -/

/-- The length of a text in bytes. -/
def byteLength (cs : List Char) : Nat := cs.foldr (fun c n => c.utf8Size + n) 0

@[simp]
theorem byteLength_nil : byteLength [] = 0 := rfl

@[simp]
theorem byteLength_cons (c : Char) (cs : List Char) :
    byteLength (c :: cs) = c.utf8Size + byteLength cs := rfl

@[simp]
theorem byteLength_append (cs ds : List Char) :
    byteLength (cs ++ ds) = byteLength cs + byteLength ds := by
  induction cs with
  | nil => simp
  | cons c cs ih => simp [ih, Nat.add_assoc]

theorem byteLength_toList (s : String) : byteLength s.toList = s.utf8ByteSize := by
  suffices ∀ cs, byteLength cs = (String.ofList cs).utf8ByteSize by simp [this]
  intro cs
  induction cs with
  | nil => simp
  | cons c cs ih => simp [ih]

/-! ## Lexemes -/

namespace Lexeme

/-- The first piece of the text `c :: cs`, where `c` is no blank, and what follows it. -/
def first (c : Char) (cs : List Char) : Lexeme × List Char :=
  if isNameStart c then
    let name := c :: cs.takeWhile isNameRest
    (⟨.token (.name (String.ofList name)), name⟩, cs.dropWhile isNameRest)
  else if c.isDigit || c == '.' then
    let (numeral, rest) := Numeral.ofChars (c :: cs)
    let piece :=
      if numeral.hasDigit then .token (.number numeral.decimal.toFloat)
      else .bad (String.ofList numeral.spelling)
    (⟨piece, numeral.spelling⟩, rest)
  else
    match Token.symbol? c with
    | some token => (⟨.token token, [c]⟩, cs)
    | none => (⟨.bad c.toString, [c]⟩, cs)

theorem spelling_first (c : Char) (cs : List Char) :
    (first c cs).1.spelling ++ (first c cs).2 = c :: cs := by
  unfold first
  split
  · simp
  · split
    · exact Numeral.spelling_ofChars (c :: cs)
    · split <;> rfl

theorem spelling_first_ne_nil (c : Char) (cs : List Char) : (first c cs).1.spelling ≠ [] := by
  unfold first
  split
  · simp
  · split
    next h => exact Numeral.spelling_ofChars_ne_nil (by simpa using h) cs
    next => split <;> simp

theorem length_first_lt (c : Char) (cs : List Char) : (first c cs).2.length < (c :: cs).length := by
  have h := congrArg List.length (spelling_first c cs)
  have := List.length_pos_iff.2 (spelling_first_ne_nil c cs)
  rw [List.length_append] at h
  omega

end Lexeme

/-! ## Items -/

namespace Item

/-- Cuts the text `cs`, which stands at byte `position`, and puts its items in front of the ones
`found` before, the last one first. -/
def collect (position : Nat) (cs : List Char) (found : List Item) : List Item :=
  match cs with
  | [] => found
  | c :: cs =>
    if isBlank c then collect (position + c.utf8Size) cs found
    else
      let lexeme := (Lexeme.first c cs).1
      collect (position + byteLength lexeme.spelling) (Lexeme.first c cs).2
        (⟨lexeme.piece, position⟩ :: found)
termination_by cs.length
decreasing_by
  · simp
  · exact Lexeme.length_first_lt c cs

/-- The items of the text `cs` at byte `position`. -/
def ofChars (position : Nat) (cs : List Char) : List Item := (collect position cs []).reverse

/-- The items of a source. -/
def ofSource (source : String) : List Item := ofChars 0 source.toList

theorem collect_eq (position : Nat) (cs : List Char) (found : List Item) :
    collect position cs found = (ofChars position cs).reverse ++ found := by
  have h : ∀ found, collect position cs found = collect position cs [] ++ found := by
    induction hn : cs.length using Nat.strongRecOn generalizing position cs with
    | _ n ih =>
      intro found
      cases cs with
      | nil => simp [collect]
      | cons c cs =>
        rw [collect, collect]
        split
        · exact ih _ (by simp [← hn]) _ _ rfl _
        · have ih := ih _ (hn ▸ Lexeme.length_first_lt c cs) (position +
            byteLength (Lexeme.first c cs).1.spelling) _ rfl
          rw [ih, ih [_], List.append_assoc, List.singleton_append]
  simp [ofChars, h found]

@[simp]
theorem ofChars_nil (position : Nat) : ofChars position [] = [] := by simp [ofChars, collect]

theorem ofChars_blank {c : Char} (h : isBlank c) (position : Nat) (cs : List Char) :
    ofChars position (c :: cs) = ofChars (position + c.utf8Size) cs := by
  rw [ofChars, collect, if_pos h, ofChars]

theorem ofChars_lexeme {c : Char} (h : ¬ isBlank c) (position : Nat) (cs : List Char) :
    ofChars position (c :: cs) =
      ⟨(Lexeme.first c cs).1.piece, position⟩ ::
        ofChars (position + byteLength (Lexeme.first c cs).1.spelling) (Lexeme.first c cs).2 := by
  rw [ofChars, collect, if_neg h, collect_eq]
  simp

end Item

end Formula
