import Mathlib
import Formula.Proofs.Boundary
import Formula.Proofs.FirstViolation
import Formula.Proofs.Overflow

/-!
# What errors point at

The position of an error can be used to part the source, and what the error says is what stands
there.

* `Begins`: a token is cut off a source at a point.
* `ParseError.Describes`: the error is one for what is met, `ParseError.Fits`: and for what a text
  begins with.
* `describes_of_parse`: an error describes the item where it stands, or the end.
* **`error_points`**: every error points between two characters, at what it says.
-/

namespace Formula

/-- The token is cut off a text in front of `back`, and `front` is what stands before it. -/
def Begins (front back : List Char) (t : Token) : Prop :=
  ∃ (l : Lexeme) (rest : List Char), back = l.spelling ++ rest ∧ l.StandsBetween front rest ∧
    l.piece = .token t

namespace ParseError

/-- What is met is what the error says. -/
def Describes (next : Option Piece) : ParseError → Prop
  | lexical e => next = some (.bad e.text)
  | unexpectedToken token _ | trailingTokens token _ =>
    ∃ t, next = some (.token t) ∧ token = Token.describe (some t)
  | unexpectedEnd _ => next = none
  | expectedClosing _ | nestingTooDeep _ _ | tooLarge _ _ =>
    next = none ∨ ∃ t, next = some (.token t)

/-- A text that is parted into `front` and `back` has behind `front` what the error says: the bad
text, which is one character, the token, or the end. -/
def Fits (front back : List Char) : ParseError → Prop
  | lexical e => ∃ c rest, back = c :: rest ∧ e.text = String.singleton c
  | unexpectedToken token _ | trailingTokens token _ =>
    ∃ t, Begins front back t ∧ token = Token.describe (some t)
  | unexpectedEnd _ => back = []
  | expectedClosing _ | nestingTooDeep _ _ | tooLarge _ _ => back = [] ∨ ∃ t, Begins front back t

end ParseError

variable {source : String} {limits : Limits} {err : ParseError}

/-! ## Items -/

theorem describes_fault (needsOperand isOpen : Bool) (next : Option Piece) (position : Nat) :
    (fault needsOperand isOpen next position).Describes next := by
  unfold fault
  split
  next => rfl
  next t =>
    split_ifs
    · exact ⟨t, rfl, rfl⟩
    · exact .inr ⟨t, rfl⟩
    · exact ⟨t, rfl, rfl⟩
  next =>
    split_ifs
    · rfl
    · exact .inl rfl

/-- An error about the limits stands where the cursor does, on a token or at the end. -/
theorem Stuck.describes {s : Stack} {c : Cursor} {limit : Nat} (h : Stuck limit s c err)
    (hl : err.isLimit) : err.position = c.position ∧ err.Describes (c.token.map .token) := by
  have hdescribes : err.Describes (c.token.map .token) := by
    have htoken : c.token.map Piece.token = none ∨
        ∃ t, c.token.map Piece.token = some (.token t) := by
      cases c.token with
      | none => exact .inl rfl
      | some t => exact .inr ⟨t, rfl⟩
    cases err with
    | nestingTooDeep => exact htoken
    | tooLarge => exact htoken
    | _ => cases hl
  refine ⟨?_, hdescribes⟩
  cases h with
  | high => rfl
  | bad => cases hl
  | here _ herr _ => exact herr

theorem describes_of_parse (h : parse source limits = .error err) :
    ∃ before after : List Item, Item.ofSource source = before ++ after ∧
      err.position = Item.positionOf after source.utf8ByteSize ∧
        err.Describes (after.head?.map (·.piece)) := by
  cases hl : err.isLimit with
  | false =>
    obtain ⟨-, before, after, hitems, -, -, p, -, -, rfl⟩ := stops_of_error h hl
    exact ⟨before, after, hitems, position_fault .., describes_fault ..⟩
  | true =>
    cases hc : Cursor.ofSource source with
    | error e =>
      cases (parse_eq_error hc limits).symm.trans h
      cases hl
    | ok c =>
      obtain ⟨_, d, after, ⟨before, hitems, -⟩, hstands, hposition, -, hstuck⟩ :=
        stuck_of_error hc h
      obtain ⟨herr, hdescribes⟩ := hstuck.describes hl
      rw [hstands.head.1] at hdescribes
      exact ⟨before, after, hitems, herr.trans hposition, hdescribes⟩

/-! ## Characters -/

theorem Cuts.eq_nil {position : Nat} {cs rest : List Char} (h : Cuts position cs [] rest)
    (hhead : ∀ c ∈ cs.head?, ¬ isBlank c) : cs = [] := by
  cases h with
  | nil => rfl
  | blank hc _ => exact (hhead _ rfl hc).elim

theorem Stray.exists_singleton {cs rest : List Char} (h : Stray cs rest) : ∃ c, cs = [c] := by
  cases h with
  | point => exact ⟨'.', rfl⟩
  | char => exact ⟨_, rfl⟩

/-- Where an item stands, or the end, the text goes on with what the error says. -/
theorem ParseError.Describes.fits {front back : List Char} {before after : List Item}
    (h : err.Describes (after.head?.map (·.piece))) (hfront : Cuts 0 front before back)
    (hback : Cuts (byteLength front) back after []) (hhead : ∀ c ∈ back.head?, ¬ isBlank c) :
    err.Fits front back := by
  cases after with
  | nil =>
    obtain rfl := hback.eq_nil hhead
    cases err with
    | lexical => cases h
    | unexpectedToken | trailingTokens =>
      obtain ⟨t, ht, -⟩ := h
      cases ht
    | unexpectedEnd => rfl
    | expectedClosing | nestingTooDeep | tooLarge => exact .inl rfl
  | cons item after =>
    obtain ⟨l, rest, rfl, hends, rfl⟩ := hback.exists_lexeme hhead
    rw [List.append_nil] at hends
    have hbegins : ∀ t, l.piece = .token t → Begins front (l.spelling ++ rest) t :=
      fun t ht => ⟨l, rest, rfl, ⟨⟨before, hfront⟩, hends⟩, ht⟩
    cases err with
    | lexical e =>
      cases hends with
      | token => cases h
      | @bad cs _ hstray =>
        obtain ⟨c, rfl⟩ := hstray.exists_singleton
        obtain ⟨text, position⟩ := e
        cases h
        exact ⟨c, rest, rfl, rfl⟩
    | unexpectedToken | trailingTokens =>
      obtain ⟨t, ht, hdescribe⟩ := h
      exact ⟨t, hbegins t (Option.some.inj ht), hdescribe⟩
    | unexpectedEnd => cases h
    | expectedClosing | nestingTooDeep | tooLarge =>
      rcases h with h | ⟨t, ht⟩
      · cases h
      · exact .inr ⟨t, hbegins t (Option.some.inj ht)⟩

/-- **Every error points between two characters, at what it says.** The source can be parted at the
position of an error. Behind it stands the bad text, which is one character, or the token that the
error names, or nothing; an error for the limits or for a missing parenthesis stands in front of a
token or at the end. -/
theorem error_points (h : parse source limits = .error err) :
    err.position ≤ source.utf8ByteSize ∧ (String.Pos.Raw.mk err.position).IsValid source ∧
      ∃ front back : String, source = front ++ back ∧ front.utf8ByteSize = err.position ∧
        err.Fits front.toList back.toList := by
  obtain ⟨before, after, hitems, hposition, hdescribes⟩ := describes_of_parse h
  obtain ⟨front, back, hsource, hfront, hback, hhead⟩ := exists_parts source before.length
  rw [hitems, List.take_left' rfl] at hfront
  rw [hitems, List.drop_left' rfl] at hback
  have hparts : source = String.ofList front ++ String.ofList back := by
    rw [← String.ofList_append, ← hsource, String.ofList_toList]
  have hlength : (String.ofList front).utf8ByteSize = err.position := by
    have hend : source.utf8ByteSize = byteLength front + byteLength back := by
      rw [← byteLength_toList, hsource, byteLength_append]
    rw [hposition, cuts_iff.1 hback, hend, Item.positionOf_ofChars hhead, ← byteLength_toList,
      String.toList_ofList]
  refine ⟨?_, ?_, _, _, hparts, hlength, ?_⟩
  · rw [hparts, String.utf8ByteSize_append]
    omega
  · exact String.Pos.Raw.isValid_iff_exists_append.2 ⟨_, _, hparts, by rw [← hlength]; rfl⟩
  · rw [String.toList_ofList, String.toList_ofList]
    exact hdescribes.fits hfront hback hhead

/-- The name behind two wide blanks is too much. It stands at byte 10, where the seventh character
begins. -/
theorem error_points_past_wide_blanks :
    let source := "f(a\u3000)\u3000b"
    parse source = .error (.trailingTokens "identifier 'b'" 10) ∧
      (String.Pos.Raw.mk 10).IsValid source ∧
        ∃ front back : String, source = front ++ back ∧ front.utf8ByteSize = 10 ∧
          ∃ t, Begins front.toList back.toList t ∧ "identifier 'b'" = Token.describe (some t) := by
  intro source
  have h : parse source = .error (.trailingTokens "identifier 'b'" 10) := by cbv
  obtain ⟨-, hvalid, hparts⟩ := error_points h
  exact ⟨h, hvalid, hparts⟩

end Formula
