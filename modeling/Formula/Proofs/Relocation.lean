import Mathlib.Tactic.SplitIfs
import Formula.Proofs.Pieces
import Formula.Proofs.Simulation

/-!
# Positions are only carried along

No production looks at a position. If all positions ahead are changed by a function, then the trees
are the same and the errors have their positions changed by it.

* `Cursor.relocate`, `ParseError.relocate`: the change. `relocating`: it is a simulation.
* **`parse_relocate`**: sources whose items are one another's, changed in their positions.
* `offset`: where the item of a number stands, or the end.
* **`parse_error_offset`**: every error stands on an item or at the end.
* **`sameOutcome_of_pieces`**: sources with the same pieces come to the same, at the same items.
-/

namespace Formula

/-! ## Changed positions -/

variable {f : Nat → Nat}

/-- The item at another position. -/
def Item.relocate (f : Nat → Nat) (item : Item) : Item := { item with position := f item.position }

/-- The error at another position. -/
def LexicalError.relocate (f : Nat → Nat) (e : LexicalError) : LexicalError :=
  { e with position := f e.position }

/-- The same error, with its token, text or limit, at another position. -/
def ParseError.relocate (f : Nat → Nat) : ParseError → ParseError
  | lexical e => lexical (e.relocate f)
  | unexpectedToken token position => unexpectedToken token (f position)
  | unexpectedEnd position => unexpectedEnd (f position)
  | expectedClosing position => expectedClosing (f position)
  | trailingTokens token position => trailingTokens token (f position)
  | nestingTooDeep limit position => nestingTooDeep limit (f position)
  | tooLarge limit position => tooLarge limit (f position)

@[simp]
theorem ParseError.position_relocate (f : Nat → Nat) (e : ParseError) :
    (e.relocate f).position = f e.position := by
  cases e <;> rfl

theorem ParseError.relocate_congr {g : Nat → Nat} {e : ParseError}
    (h : f e.position = g e.position) : e.relocate f = e.relocate g := by
  cases e with
  | lexical e => exact congrArg (fun p => ParseError.lexical ⟨e.text, p⟩) h
  | _ => exact congrArg _ h

namespace Cursor

/-- The cursor with all its positions moved. -/
def relocate (f : Nat → Nat) (c : Cursor) : Cursor :=
  ⟨c.token, f c.position, c.rest.map (Item.relocate f), f c.finish⟩

variable {c d : Cursor}

theorem advance_relocate (f : Nat → Nat) (c : Cursor) :
    (c.relocate f).advance =
      (c.advance.1.mapError (LexicalError.relocate f), c.advance.2.relocate f) := by
  obtain ⟨token, position, rest, finish⟩ := c
  match rest with
  | [] => rfl
  | ⟨.token _, _⟩ :: _ => rfl
  | ⟨.bad _, _⟩ :: _ => rfl

end Cursor

/-! ## Two runs -/

/-- A run beside the one where all positions are changed. -/
def relocating (f : Nat → Nat) (limits : Limits) : Simulation limits limits where
  Near c c' := c' = c.relocate f
  Agree r r' := r'.1 = (r.1.1.mapError (ParseError.relocate f), r.1.2.relocate f)
  token := by
    rintro c _ rfl
    rfl
  ok := by
    rintro c _ α rfl a
    rfl
  mark := by
    rintro c _ α mark rfl hm
    cases hm <;> rfl
  nested := by
    rintro c _ α depth k k' rfl h
    unfold Cursor.nested
    split_ifs
    · rfl
    · exact h
  height := by
    rintro c _ α r r' height rfl h
    split_ifs
    · rfl
    · exact h
  past := by
    rintro c _ α h h' k k' rfl hk
    have hmove := Cursor.advance_relocate f c
    rcases hd : c.advance with ⟨e | ⟨⟩, d⟩
    · rw [hd] at hmove
      rw [Cursor.past_of_error hd, Cursor.past_of_error hmove]
      rfl
    · rw [hd] at hmove
      rw [Cursor.past_of_ok hd, Cursor.past_of_ok hmove]
      exact hk d _ _ _ rfl
  andThen := by
    rintro c _ α β ⟨⟨outcome, d⟩, hd⟩ ⟨_, hd'⟩ k k' rfl rfl hk
    cases outcome with
    | error e => rfl
    | ok a => exact hk a d _ _ _ rfl

theorem Cursor.expression_relocate (f : Nat → Nat) (limits : Limits) (c : Cursor) :
    (c.relocate f).expression limits =
      ((c.expression limits).1.mapError (ParseError.relocate f),
        (c.expression limits).2.relocate f) := by
  rw [expression_eq_whole, expression_eq_whole]
  exact (relocating f limits).whole rfl

/-! ## Sources -/

variable {source source' : String}

theorem Cursor.ofSource_relocate
    (h : Item.ofSource source' = (Item.ofSource source).map (Item.relocate f))
    (hend : source'.utf8ByteSize = f source.utf8ByteSize) :
    ofSource source' =
      ((ofSource source).mapError (LexicalError.relocate f)).map (Cursor.relocate f) := by
  unfold ofSource before
  rw [h, hend]
  generalize Item.ofSource source = items
  match items with
  | [] => rfl
  | ⟨.token _, _⟩ :: _ => rfl
  | ⟨.bad _, _⟩ :: _ => rfl

/-- **Positions are only carried along.** -/
theorem parse_relocate (h : Item.ofSource source' = (Item.ofSource source).map (Item.relocate f))
    (hend : source'.utf8ByteSize = f source.utf8ByteSize) (limits : Limits) :
    parse source' limits = (parse source limits).mapError (ParseError.relocate f) := by
  have hc := Cursor.ofSource_relocate h hend
  cases hs : Cursor.ofSource source with
  | error e =>
    rw [hs] at hc
    rw [parse_eq_error hc, parse_eq_error hs]
    rfl
  | ok c =>
    rw [hs] at hc
    rw [parse_eq_expression hc, parse_eq_expression hs, Cursor.expression_relocate]

/-! ## Items by number -/

/-- Where the item of number `n` stands, counted from zero. What is no number of an item stands for
the end. -/
def offset (source : String) (n : Nat) : Nat :=
  ((Item.ofSource source)[n]?.map (·.position)).getD source.utf8ByteSize

/-- How many items stand in front of a position. -/
def itemsBefore (source : String) (position : Nat) : Nat :=
  ((Item.ofSource source).filter (·.position < position)).length

theorem itemsBefore_offset {n : Nat} (hn : n ≤ (Item.ofSource source).length) :
    itemsBefore source (offset source n) = n := by
  obtain ⟨hrise, hin⟩ := Item.positions_ofSource source
  have hoffset : offset source n =
      Item.positionOf ((Item.ofSource source).drop n) source.utf8ByteSize := by
    rw [offset, Item.positionOf, List.head?_drop]
  rw [← List.take_append_drop n (Item.ofSource source)] at hrise hin
  have hbefore := Item.filter_before hrise hin
  rw [List.take_append_drop, ← hoffset] at hbefore
  rw [itemsBefore, hbefore, List.length_take, Nat.min_eq_left hn]

/-- An item is carried to where the one of the same number stands in the other source. -/
def carry (source source' : String) (position : Nat) : Nat :=
  offset source' (itemsBefore source position)

theorem carry_offset {n : Nat} (hn : n ≤ (Item.ofSource source).length) :
    carry source source' (offset source n) = offset source' n := by
  rw [carry, itemsBefore_offset hn]

theorem offset_length (source : String) :
    offset source (Item.ofSource source).length = source.utf8ByteSize := by
  rw [offset, List.getElem?_eq_none (Nat.le_refl _)]
  rfl

theorem ofSource_carry
    (h : (Item.ofSource source').map (·.piece) = (Item.ofSource source).map (·.piece)) :
    Item.ofSource source' = (Item.ofSource source).map (Item.relocate (carry source source')) ∧
      source'.utf8ByteSize = carry source source' source.utf8ByteSize := by
  have hlength : (Item.ofSource source').length = (Item.ofSource source).length := by
    simpa using congrArg List.length h
  have hpositions : ∀ (s : String) (n : Nat) (hn : n < (Item.ofSource s).length),
      (Item.ofSource s)[n].position = offset s n := by
    intro s n hn
    rw [offset, List.getElem?_eq_getElem hn]
    rfl
  constructor
  · refine List.ext_getElem (by rw [List.length_map, hlength]) fun n hn' hn => ?_
    rw [List.length_map] at hn
    have hpiece : (Item.ofSource source')[n].piece = (Item.ofSource source)[n].piece := by
      have := List.getElem_of_eq h (by rwa [List.length_map])
      rwa [List.getElem_map, List.getElem_map] at this
    have hposition : (Item.ofSource source')[n].position =
        carry source source' (Item.ofSource source)[n].position := by
      rw [hpositions source' n hn', hpositions source n hn, carry_offset (Nat.le_of_lt hn)]
    rw [List.getElem_map]
    calc (Item.ofSource source')[n]
        = ⟨(Item.ofSource source')[n].piece, (Item.ofSource source')[n].position⟩ := rfl
      _ = Item.relocate (carry source source') (Item.ofSource source)[n] := by
          rw [hpiece, hposition]
          rfl
  · have hend := (carry_offset (Nat.le_refl _) : carry source source' _ = _)
    rw [offset_length, ← hlength, offset_length] at hend
    exact hend.symm

/-- **An error stands on an item or at the end.** The positions in between could be changed without
changing the source. -/
theorem parse_error_offset {limits : Limits} {err : ParseError}
    (h : parse source limits = .error err) :
    err.position = offset source (itemsBefore source err.position) := by
  obtain ⟨hitems, hend⟩ := ofSource_carry (rfl : (Item.ofSource source).map (·.piece) = _)
  have hsame := parse_relocate hitems hend limits
  rw [h] at hsame
  have herr : err = err.relocate (carry source source) := Except.error.inj hsame
  exact (congrArg ParseError.position herr).trans (ParseError.position_relocate ..)

/-- Two sources come to the same tree, or to the same error at the item of the same number. -/
def SameOutcome (source source' : String) (limits : Limits) : Prop :=
  match parse source limits with
  | .ok e => parse source' limits = .ok e
  | .error err => ∃ n, err.position = offset source n ∧
      parse source' limits = .error (err.relocate fun _ => offset source' n)

/-- **Sources with the same pieces come to the same.** -/
theorem sameOutcome_of_pieces
    (h : (Item.ofSource source').map (·.piece) = (Item.ofSource source).map (·.piece))
    (limits : Limits) : SameOutcome source source' limits := by
  obtain ⟨hitems, hend⟩ := ofSource_carry h
  have hparse := parse_relocate hitems hend limits
  unfold SameOutcome
  cases hs : parse source limits with
  | ok e =>
    rw [hs] at hparse
    exact hparse
  | error err =>
    rw [hs] at hparse
    refine ⟨itemsBefore source err.position, parse_error_offset hs, hparse.trans ?_⟩
    exact congrArg Except.error (ParseError.relocate_congr rfl)

end Formula
