import Formula.Proofs.Positions
import Formula.Proofs.Spelling

/-!
# The pieces of a text

Where a text stands does not matter for what it is cut into.

* `pieces`: the pieces of a text, without their positions.
* `Delimited`: what stands behind a name or a number is no part of it.
* **`pieces_symbol`**, **`pieces_name`**, **`pieces_numeral`**: the first piece, by its spelling.
* **`pieces_append`**: a text is cut in front of a delimited one.
-/

namespace Formula

/-- The pieces of a text. -/
def pieces (cs : List Char) : List Piece := (Item.ofChars 0 cs).map (·.piece)

variable {c : Char} {cs tail : List Char}

theorem map_piece_ofChars (position : Nat) (cs : List Char) :
    (Item.ofChars position cs).map (·.piece) = pieces cs := by
  unfold pieces
  generalize 0 = start
  induction cs using Item.ofChars_induction generalizing position start with
  | nil => rw [Item.ofChars_nil, Item.ofChars_nil]
  | blank c cs hc ih => rw [Item.ofChars_blank hc, Item.ofChars_blank hc, ih]
  | lexeme c cs hc ih =>
    rw [Item.ofChars_lexeme hc, Item.ofChars_lexeme hc, List.map_cons, List.map_cons, ih]

@[simp]
theorem pieces_nil : pieces [] = [] := by rw [pieces, Item.ofChars_nil, List.map_nil]

theorem pieces_blank (hc : isBlank c) : pieces (c :: cs) = pieces cs := by
  rw [pieces, Item.ofChars_blank hc, map_piece_ofChars]

theorem pieces_lexeme (hc : ¬ isBlank c) :
    pieces (c :: cs) = (Lexeme.first c cs).1.piece :: pieces (Lexeme.first c cs).2 := by
  rw [pieces, Item.ofChars_lexeme hc, List.map_cons, map_piece_ofChars]

theorem pieces_toList (source : String) :
    (Item.ofSource source).map (·.piece) = pieces source.toList := rfl

theorem pieces_of_endsBefore {l : Lexeme} (h : l.EndsBefore tail) :
    pieces (l.spelling ++ tail) = l.piece :: pieces tail := by
  obtain ⟨c, cs, hs, hc, hfirst⟩ := Lexeme.first_of_endsBefore h
  rw [hs, List.cons_append, pieces_lexeme hc, hfirst]

/-! ## Symbols, names and numerals -/

theorem pieces_symbol {t : Token} (h : Token.symbol? c = some t) :
    pieces (c :: cs) = .token t :: pieces cs :=
  pieces_of_endsBefore <|
    .token (Token.spelled_of_symbol? h) fun _ _ => Token.not_goesOn_of_symbol? h

/-- What stands behind a name or a number is no part of it. -/
def Delimited (cs : List Char) : Prop := ∀ c ∈ cs.head?, isNameRest c = false ∧ c ≠ '.'

theorem delimited_nil : Delimited [] := by
  rintro c ⟨⟩

theorem delimited_cons {c : Char} (h : isNameRest c = false ∧ c ≠ '.') (cs : List Char) :
    Delimited (c :: cs) := by
  rintro d ⟨⟩
  exact h

theorem pieces_name (hcs : isName cs) (ht : Delimited tail) :
    pieces (cs ++ tail) = .token (.name (String.ofList cs)) :: pieces tail :=
  pieces_of_endsBefore (.token (.name hcs) fun c hc => Bool.eq_false_iff.1 (ht c hc).1)

theorem Delimited.endsBefore (ht : Delimited tail) (n : Numeral) : n.EndsBefore tail :=
  fun c hc => ⟨fun h => Bool.eq_false_iff.1 (ht c hc).1 (isNameRest_of_isDigit h),
    fun _ => (ht c hc).2⟩

theorem pieces_numeral {n : Numeral} (hn : n.OfDigits) (hd : n.hasDigit) (ht : Delimited tail) :
    pieces (n.spelling ++ tail) = .token (.number n.decimal.toFloat) :: pieces tail :=
  pieces_of_endsBefore (Lexeme.endsBefore_number hn hd (ht.endsBefore n))

/-! ## Texts one after the other -/

theorem Delimited.not_goesOn (ht : Delimited tail) (t : Token) (cs : List Char) :
    ∀ c ∈ tail.head?, ¬ t.GoesOn cs c := by
  intro c hc h
  obtain ⟨hrest, hpoint⟩ := ht c hc
  cases t with
  | number value =>
    rcases h with h | h
    · exact Bool.eq_false_iff.1 hrest (isNameRest_of_isDigit h)
    · exact hpoint h.1
  | name text => exact Bool.eq_false_iff.1 hrest h
  | _ => exact h

/-- A lexeme ends where it did when a delimited text takes the place of what comes later. -/
theorem Lexeme.EndsBefore.replace {l : Lexeme} {rest : List Char} (h : l.EndsBefore (cs ++ rest))
    (ht : Delimited tail) : l.EndsBefore (cs ++ tail) := by
  cases cs with
  | nil =>
    cases h with
    | token hspelled _ => exact .token hspelled (ht.not_goesOn _ _)
    | bad h =>
      cases h with
      | point _ =>
        refine .bad (.point fun c hc hdigit => ?_)
        exact Bool.eq_false_iff.1 (ht c hc).1 (isNameRest_of_isDigit hdigit)
      | char _ hblank hno => exact .bad (.char tail hblank hno)
  | cons c cs =>
    -- it ends in front of `c`, whatever comes later
    cases h with
    | token hspelled hends => exact .token hspelled hends
    | bad h =>
      cases h with
      | point hdigit => exact .bad (.point hdigit)
      | char _ hblank hno => exact .bad (.char _ hblank hno)

theorem Lexeme.EndsBefore.append {l : Lexeme} (h : l.EndsBefore cs) (ht : Delimited tail) :
    l.EndsBefore (cs ++ tail) := by
  rw [← List.append_nil cs] at h
  exact h.replace ht

/-- **A text is cut in front of a delimited one.** -/
theorem pieces_append (ht : Delimited tail) (cs : List Char) :
    pieces (cs ++ tail) = pieces cs ++ pieces tail := by
  induction cs using Item.ofChars_induction with
  | nil => rw [List.nil_append, pieces_nil, List.nil_append]
  | blank c cs hc ih => rw [List.cons_append, pieces_blank hc, ih, pieces_blank hc]
  | lexeme c cs hc ih =>
    have hends := (Lexeme.endsBefore_first hc cs).append ht
    calc pieces (c :: cs ++ tail)
        = pieces ((Lexeme.first c cs).1.spelling ++ ((Lexeme.first c cs).2 ++ tail)) := by
          rw [← List.append_assoc, Lexeme.spelling_first]
      _ = (Lexeme.first c cs).1.piece :: (pieces (Lexeme.first c cs).2 ++ pieces tail) := by
          rw [pieces_of_endsBefore hends, ih]
      _ = pieces (c :: cs) ++ pieces tail := by rw [pieces_lexeme hc, List.cons_append]

end Formula
