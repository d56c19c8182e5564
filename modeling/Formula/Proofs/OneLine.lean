import Formula.Proofs.FirstViolation
import Formula.Proofs.Lookup
import Formula.Proofs.PostOrder
import Formula.Proofs.PrintsBack

/-!
# Outcomes are one line

Whatever becomes of a formula without line feeds, it is told in a text without line feeds: names are
names and numbers are digits, and bad text is quoted from the formula.

* `IsLine`: the texts without line feeds.
* `Expr.isLine_text`: printed trees; `isLine_message_of_parse`: errors of reading.
* `Expr.raises_postOrder`: the errors of an evaluation are those of its context.
* **`Options.isLine_line`**: the outcome of a formula is a line.
-/

namespace Formula

/-- A text without line feeds. -/
def IsLine (s : String) : Prop := '\n' ∉ s.toList

/-- The characters of a text tell. -/
instance (s : String) : Decidable (IsLine s) := inferInstanceAs (Decidable ('\n' ∉ s.toList))

theorem IsLine.append {s t : String} (hs : IsLine s) (ht : IsLine t) : IsLine (s ++ t) := by
  rw [IsLine, String.toList_append, List.mem_append, not_or]
  exact ⟨hs, ht⟩

theorem isLine_ofList {cs : List Char} : IsLine (.ofList cs) ↔ '\n' ∉ cs := by
  rw [IsLine, String.toList_ofList]

/-! ## Names and numbers -/

theorem newline_not_mem_of_isName {cs : List Char} (h : isName cs) : '\n' ∉ cs :=
  fun hc => absurd (isNameRest_of_mem h hc) (by decide)

theorem isLine_of_isName {name : String} (h : isName name.toList) : IsLine name :=
  newline_not_mem_of_isName h

theorem isLine_nat (n : Nat) : IsLine (toString n) := by
  rw [IsLine, Nat.toString_eq_repr, Nat.toList_repr]
  intro hc
  exact absurd (Nat.isDigit_of_mem_toDigits (by decide) (by decide) hc) (by decide)

theorem newline_not_mem_write (x : Float) : '\n' ∉ Double.write Double.plain x := by
  intro hc
  rcases Double.isNameRest_or_of_mem_write hc with h | h | h
  · exact absurd h (by decide)
  · exact absurd h (by decide)
  · exact absurd h (by decide)

theorem Double.isLine_text (x : Float) : IsLine (Double.text x) :=
  isLine_ofList.2 (newline_not_mem_write x)

/-! ## Trees -/

namespace Expr

mutual

theorem newline_not_mem_chars : ∀ (e : Expr) {tail : List Char}, e.hasNames → '\n' ∉ tail →
    '\n' ∉ e.chars tail
  | number x, tail, _, ht => by
    unfold chars
    split
    · simp [newline_not_mem_write, ht]
    · simp [newline_not_mem_write, ht]
  | var name, tail, h, ht => by
    rw [chars, List.mem_append, not_or]
    exact ⟨newline_not_mem_of_isName h, ht⟩
  | neg operand, tail, h, ht => by
    have htail : '\n' ∉ ')' :: tail := by simp [ht]
    simp [chars, newline_not_mem_chars operand h htail]
  | binary o left right, tail, h, ht => by
    rw [hasNames, Bool.and_eq_true] at h
    have htail : '\n' ∉ ')' :: tail := by simp [ht]
    have hsymbol : '\n' ≠ o.symbol := by cases o <;> decide
    have hright : '\n' ∉ ' ' :: o.symbol :: ' ' :: right.chars (')' :: tail) := by
      simp [hsymbol, newline_not_mem_chars right h.2 htail]
    simp [chars, newline_not_mem_chars left h.1 hright]
  | call function arguments, tail, h, ht => by
    rw [hasNames, Bool.and_eq_true] at h
    have htail : '\n' ∉ ')' :: tail := by simp [ht]
    simp [chars, newline_not_mem_of_isName h.1, newline_not_mem_argumentChars arguments h.2 htail]

theorem newline_not_mem_argumentChars : ∀ (es : List Expr) {tail : List Char}, allHaveNames es →
    '\n' ∉ tail → '\n' ∉ argumentChars es tail
  | [], _, _, ht => ht
  | e :: es, tail, h, ht => by
    rw [allHaveNames, Bool.and_eq_true] at h
    exact newline_not_mem_chars e h.1 (newline_not_mem_furtherChars es h.2 ht)

theorem newline_not_mem_furtherChars : ∀ (es : List Expr) {tail : List Char}, allHaveNames es →
    '\n' ∉ tail → '\n' ∉ furtherChars es tail
  | [], _, _, ht => ht
  | e :: es, tail, h, ht => by
    rw [allHaveNames, Bool.and_eq_true] at h
    have he := newline_not_mem_chars e h.1 (newline_not_mem_furtherChars es h.2 ht)
    simp [furtherChars, he]

end

theorem isLine_text {e : Expr} (h : e.hasNames) : IsLine e.text :=
  isLine_ofList.2 (newline_not_mem_chars e h List.not_mem_nil)

end Expr

/-! ## Errors of reading -/

/-- The texts that the message of an error quotes. -/
def ParseError.quoted : ParseError → List String
  | lexical error => [error.text]
  | unexpectedToken token _ => [token]
  | trailingTokens token _ => [token]
  | _ => []

theorem ParseError.isLine_reason {e : ParseError} (h : ∀ q ∈ e.quoted, IsLine q) :
    IsLine e.reason := by
  cases e with
  | lexical error =>
    have htext : IsLine error.text := h _ (List.mem_singleton_self _)
    exact .append (.append (by decide) htext) (by decide)
  | unexpectedToken token position | trailingTokens token position =>
    have htoken : IsLine token := h _ (List.mem_singleton_self _)
    exact .append (.append (by decide) htoken) (by decide)
  | unexpectedEnd position =>
    show IsLine "Unexpected end of input."
    decide
  | expectedClosing position =>
    show IsLine "Expected closing parenthesis ')' but none found."
    decide
  | nestingTooDeep limit position | tooLarge limit position =>
    exact .append (.append (by decide) (isLine_nat limit)) (by decide)

theorem ParseError.isLine_message {e : ParseError} (h : ∀ q ∈ e.quoted, IsLine q) :
    IsLine e.message :=
  .append (.append (.append (by decide) (isLine_nat e.position)) (by decide)) (isLine_reason h)

/-- A piece as messages quote it. -/
def Piece.quoted : Piece → String
  | token t => Token.describe t
  | bad text => text

theorem quoted_fault {needsOperand isOpen : Bool} {next : Option Piece} {position : Nat} :
    ∀ q ∈ (fault needsOperand isOpen next position).quoted, q ∈ next.map Piece.quoted := by
  intro q hq
  unfold fault at hq
  split at hq
  · simpa [ParseError.quoted, Piece.quoted, eq_comm] using hq
  · split_ifs at hq <;> simp_all [ParseError.quoted, Piece.quoted]
  · split_ifs at hq <;> cases hq

theorem Token.isLine_describe {t : Token} {cs : List Char} (h : t.Spelled cs) :
    IsLine (Token.describe t) := by
  cases h with
  | number _ _ =>
    rw [Token.describe]
    exact .append (by decide) (Double.isLine_text _)
  | name h =>
    have hname := isLine_ofList.2 (newline_not_mem_of_isName h)
    rw [Token.describe]
    exact .append (.append (by decide) hname) (by decide)
  | _ => decide

theorem isLine_quoted {source : String} (hs : IsLine source) {item : Item}
    (h : item ∈ Item.ofSource source) : IsLine item.piece.quoted := by
  have hcuts := cuts_ofChars 0 source.toList
  obtain ⟨piece, position⟩ := item
  cases piece with
  | token t =>
    obtain ⟨cs, hcs⟩ := hcuts.spelled (List.mem_map_of_mem h)
    exact Token.isLine_describe hcs
  | bad text =>
    obtain ⟨before, after, hitems⟩ := List.append_of_mem h
    rw [← Item.ofSource, hitems] at hcuts
    obtain ⟨front, stray, back, hchars, -, -, he⟩ := hcuts.exists_stray (e := ⟨text, position⟩)
    rw [IsLine, hchars] at hs
    cases he
    simp only [List.mem_append, not_or] at hs
    exact isLine_ofList.2 hs.2.1

theorem isLine_message_of_parse {source : String} {limits : Limits} {err : ParseError}
    (hs : IsLine source) (h : parse source limits = .error err) : IsLine err.message := by
  refine ParseError.isLine_message fun q hq => ?_
  cases hl : err.isLimit with
  | true =>
    cases err with
    | nestingTooDeep | tooLarge => simp [ParseError.quoted] at hq
    | _ => cases hl
  | false =>
    obtain ⟨ts, before, after, hitems, -, -, p, -, -, rfl⟩ := stops_of_error h hl
    have hq := quoted_fault q hq
    cases after with
    | nil => cases hq
    | cons item after =>
      cases hq
      exact isLine_quoted hs (by rw [hitems]; simp)

/-! ## Errors of evaluation -/

/-- The texts that the message of an error quotes. -/
def EvalError.quoted : EvalError → List String
  | unknownVariable name => [name]
  | unknownFunction name => [name]
  | argumentCount name expected _ => [name, expected]
  | invalidArgument name details => [name, details]

/-- An error of evaluation that quotes texts without line feeds. -/
def EvalError.QuotesLines (e : EvalError) : Prop := ∀ q ∈ e.quoted, IsLine q

theorem EvalError.QuotesLines.isLine_message {e : EvalError} (h : e.QuotesLines) :
    IsLine e.message := by
  cases e with
  | unknownVariable name | unknownFunction name =>
    exact .append (.append (by decide) (h name (by simp [quoted]))) (by decide)
  | argumentCount name expected found =>
    have hname : IsLine name := h name (by simp [quoted])
    have hexpected : IsLine expected := h expected (by simp [quoted])
    exact .append (.append (.append (.append (.append (.append (by decide) hname) (by decide))
      hexpected) (by decide)) (isLine_nat found)) (by decide)
  | invalidArgument name details =>
    have hname : IsLine name := h name (by simp [quoted])
    have hdetails : IsLine details := h details (by simp [quoted])
    exact .append (.append (.append (.append (by decide) hname) (by decide)) hdetails) (by decide)

/-- The errors of a computation have a property. -/
def Raises {α : Type} (P : EvalError → Prop) (r : Except EvalError α) : Prop :=
  ∀ e, r = .error e → P e

section Raising

variable {α β : Type} {P : EvalError → Prop}

theorem raises_ok (a : α) : Raises P (.ok a : Except EvalError α) := nofun

theorem raises_error {e : EvalError} (h : P e) : Raises P (.error e : Except EvalError α) := by
  rintro _ ⟨⟩
  exact h

theorem Raises.bind {r : Except EvalError α} {k : α → Except EvalError β} (h : Raises P r)
    (hk : ∀ a, Raises P (k a)) : Raises P (r >>= k) := by
  cases r with
  | ok a => exact hk a
  | error e => exact raises_error (h e rfl)

/-- The errors of a context have a property, for the names with `q`. -/
structure Context.Raises (context : Context (Except EvalError)) (q : String → Bool)
    (P : EvalError → Prop) : Prop where
  resolve (name : String) : q name → Formula.Raises P (context.resolve name)
  call (name : String) (args : List Float) : q name → Formula.Raises P (context.call name args)

variable {context : Context (Except EvalError)} {p : Float → Bool} {q : String → Bool}

namespace Expr

mutual

/-- The errors of an evaluation are those of its context, for the names of the tree. -/
theorem raises_postOrder (hc : context.Raises q P) :
    ∀ e : Expr, e.all p q → Raises P (e.postOrder context)
  | number value, _ => by
    rw [postOrder]
    exact raises_ok value
  | var name, h => by
    rw [postOrder]
    exact hc.resolve name h
  | neg operand, h => by
    rw [postOrder]
    exact (raises_postOrder hc operand h).bind fun x => raises_ok (-x)
  | binary operator left right, h => by
    rw [all, Bool.and_eq_true] at h
    rw [postOrder]
    refine (raises_postOrder hc left h.1).bind fun x => ?_
    exact (raises_postOrder hc right h.2).bind fun y => raises_ok (operator.apply x y)
  | call function arguments, h => by
    rw [all, Bool.and_eq_true] at h
    rw [postOrder]
    exact (raises_postOrderAll hc arguments h.2).bind fun values => hc.call function values h.1

theorem raises_postOrderAll (hc : context.Raises q P) :
    ∀ es : List Expr, allOf p q es → Raises P (postOrderAll context es)
  | [], _ => by
    rw [postOrderAll]
    exact raises_ok []
  | e :: es, h => by
    rw [allOf, Bool.and_eq_true] at h
    rw [postOrderAll]
    refine (raises_postOrder hc e h.1).bind fun x => ?_
    exact (raises_postOrderAll hc es h.2).bind fun xs => raises_ok (x :: xs)

end

end Expr

end Raising

/-! ## Errors of builtins -/

namespace Operation

theorem exists_of_apply_eq_error {o : Operation} {args : List Float} {details : String}
    (h : o.apply args = some (.error details)) :
    ∃ f x y z, o = three f ∧ args = [x, y, z] ∧ f x y z = .error details := by
  unfold apply at h
  split at h
  case h_5 f x y z => exact ⟨f, x, y, z, rfl, rfl, Option.some.inj h⟩
  all_goals cases h

end Operation

namespace Builtin

theorem eq_clamp {b : Builtin} (hb : b ∈ all) {f : Float → Float → Float → Except String Float}
    (h : b.operation = .three f) : f = clamp := by
  simp only [all, List.mem_cons, List.not_mem_nil, or_false] at hb
  rcases hb with rfl | rfl | rfl | rfl | rfl | rfl | rfl | rfl | rfl | rfl | rfl | rfl | rfl | rfl |
    rfl | rfl <;> cases h
  rfl

theorem isLine_clamp {x low high : Float} {details : String}
    (h : clamp x low high = .error details) : IsLine details := by
  unfold clamp at h
  split at h
  · cases h
    exact .append (.append (.append (by decide) (Double.isLine_text low)) (by decide))
      (Double.isLine_text high)
  · cases h

theorem isLine_name {b : Builtin} (hb : b ∈ all) : IsLine b.name ∧ IsLine b.expected := by
  revert b
  decide

theorem raises_call {name : String} (h : IsLine name) (args : List Float) :
    Raises EvalError.QuotesLines (call name args) := by
  unfold call
  split
  · exact raises_error (List.forall_mem_singleton.2 h)
  next b hfind =>
    have hb := List.mem_of_find?_eq_some hfind
    obtain ⟨hname, hexpected⟩ := isLine_name hb
    unfold invoke
    split
    · exact raises_error (List.forall_mem_cons.2 ⟨hname, List.forall_mem_singleton.2 hexpected⟩)
    next details herror =>
      obtain ⟨f, x, y, z, hf, -, hdetails⟩ := Operation.exists_of_apply_eq_error herror
      rw [eq_clamp hb hf] at hdetails
      have hline := isLine_clamp hdetails
      exact raises_error (List.forall_mem_cons.2 ⟨hname, List.forall_mem_singleton.2 hline⟩)
    · exact raises_ok _

end Builtin

/-! ## Formulas -/

namespace Options

variable (o : Options)

theorem raises_bindings :
    o.bindings.context.Raises (fun name => isName name.toList) EvalError.QuotesLines where
  resolve name h := by
    show Raises _ (o.bindings.resolve name)
    unfold Bindings.resolve
    split
    · exact raises_ok _
    · exact raises_error (List.forall_mem_singleton.2 (isLine_of_isName h))
  call name args h := by
    show Raises _ (o.bindings.call name args)
    rw [call_bindings]
    split
    · exact Builtin.raises_call (isLine_of_isName h) args
    · exact raises_error (List.forall_mem_singleton.2 (isLine_of_isName h))

/-- **The outcome of a formula is a line**, whether it is a value, a tree or an error. -/
theorem isLine_line {source : String} (h : IsLine source) :
    match o.line source with
    | .ok line => IsLine line
    | .error line => IsLine line := by
  cases hparse : parse source o.limits with
  | error e =>
    simp only [line, hparse]
    exact isLine_message_of_parse h hparse
  | ok tree =>
    have htree := isSpellable_of_parse hparse
    simp only [line, hparse]
    by_cases ht : o.tree
    · simp only [ht, if_true]
      exact tree.isLine_text (tree.hasNames_of_all htree)
    · have hraises := Expr.raises_postOrder o.raises_bindings tree htree
      rw [← Expr.evaluate_eq_postOrder] at hraises
      simp only [ht]
      cases hvalue : tree.evaluate o.bindings.context with
      | ok value => exact Double.isLine_text value
      | error e => exact (hraises e hvalue).isLine_message

end Options

end Formula
