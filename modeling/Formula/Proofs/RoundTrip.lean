import Formula.Expr.Text
import Formula.Proofs.Acceptance
import Formula.Proofs.Digits

/-!
# Printed trees are read back

* `Expr.hasNames`: the trees that can be written, whose names are names.
* `Expr.readBack`: the tree that a printed tree is read as; `Expr.need`: how deep its text nests.
* `Expr.writes_chars`: the tokens of a printed tree spell what it is read back as.
* **`parse_text`**: a printed tree is read back, or is beyond the limits.
-/

namespace Formula

namespace Expr

open Binary64 (isNegative)

mutual

/-- All names in the tree are names in a source as well. -/
def hasNames : Expr → Bool
  | number _ => true
  | var name => isName name.toList
  | neg operand => operand.hasNames
  | binary _ left right => left.hasNames && right.hasNames
  | call function arguments => isName function.toList && allHaveNames arguments

/-- The names in all of the trees are names. -/
def allHaveNames : List Expr → Bool
  | [] => true
  | e :: es => e.hasNames && allHaveNames es

end

/-- What a literal without sign is read back as. Infinity and NaN are words. -/
def readLiteral (x : Float) : Expr :=
  if x.isNaN then .var "NaN" else if x.isInf then .var "inf" else .number x

mutual

/-- What a printed tree is read back as. A literal with a sign becomes a negation. -/
def readBack : Expr → Expr
  | number x => if isNegative x then .neg (readLiteral x.abs) else readLiteral x
  | var name => .var name
  | neg operand => .neg operand.readBack
  | binary operator left right => .binary operator left.readBack right.readBack
  | call function arguments => .call function (readAllBack arguments)

/-- Each of the trees as it is read back. -/
def readAllBack : List Expr → List Expr
  | [] => []
  | e :: es => e.readBack :: readAllBack es

end

mutual

/-- How deep the text of a tree nests. -/
def need : Expr → Nat
  | number x => if isNegative x then 2 else 0
  | var _ => 0
  | neg operand => 2 + operand.need
  | binary _ left right => 1 + max left.need right.need
  | call _ arguments => 1 + needs arguments

/-- The greatest nesting of a list of trees, `0` for none. -/
def needs : List Expr → Nat
  | [] => 0
  | e :: es => max e.need (needs es)

end

end Expr

variable {tail : List Char}

/-! ## Tokens of printed trees -/

namespace Expr

open Binary64 (isNegative)

theorem spelled_readLiteral (x : Float) :
    (Phrase.tree .operand (readLiteral x)).Spelled [Double.token x] 0 := by
  unfold readLiteral Double.token
  by_cases hx : x.isNaN
  · rw [if_pos hx, if_pos hx]
    exact .var "NaN"
  · rw [if_neg hx, if_neg hx]
    by_cases hi : x.isInf
    · rw [if_pos hi, if_pos hi]
      exact .var "inf"
    · rw [if_neg hi, if_neg hi]
      exact .number x

/-- The text `cs` is the tokens of a phrase in front of `tail`. -/
def Writes (cs : List Char) (ph : Phrase) (n : Nat) (tail : List Char) : Prop :=
  ∃ ts : List Token, pieces cs = ts.map .token ++ pieces tail ∧ ph.Spelled ts n

theorem writes_literal {x : Float} (hx : isNegative x = false) (ht : Delimited tail) :
    Writes (Double.write Double.plain x ++ tail) (.tree .operand (readLiteral x)) 0 tail :=
  ⟨[Double.token x], Double.pieces_write hx ht, spelled_readLiteral x⟩

theorem writes_var {name : String} (h : isName name.toList) (ht : Delimited tail) :
    Writes (name.toList ++ tail) (.tree .operand (.var name)) 0 tail := by
  refine ⟨[.name name], ?_, .var name⟩
  rw [pieces_name h ht, String.ofList_toList]
  rfl

theorem writes_neg {cs : List Char} {e : Expr} {n : Nat}
    (h : Writes cs (.tree .operand e) n (')' :: tail)) :
    Writes ('(' :: '-' :: cs) (.tree .operand (.neg e)) (2 + n) tail := by
  obtain ⟨ts, hts, hn⟩ := h
  refine ⟨.openParen :: (.minus :: ts ++ [.closeParen]), ?_, ?_⟩
  · rw [pieces_symbol (t := .openParen) rfl, pieces_symbol (t := .minus) rfl, hts,
      pieces_symbol (t := .closeParen) rfl]
    simp
  · rw [Nat.add_comm]
    exact .group (spelled_of_operand (.minus hn) .sum)

theorem symbol?_symbol (o : Operator) : Token.symbol? o.symbol = some o.token := by
  cases o <;> rfl

theorem writes_binary {cs ds : List Char} {e f : Expr} {m n : Nat} (o : Operator)
    (h : Writes cs (.tree .operand e) m (' ' :: o.symbol :: ' ' :: ds))
    (h' : Writes ds (.tree .operand f) n (')' :: tail)) :
    Writes ('(' :: cs) (.tree .operand (.binary o e f)) (1 + max m n) tail := by
  obtain ⟨ts, hts, hm⟩ := h
  obtain ⟨us, hus, hn⟩ := h'
  have hspace : isBlank ' ' := by decide
  refine ⟨.openParen :: (ts ++ o.token :: us ++ [.closeParen]), ?_, ?_⟩
  · rw [pieces_symbol (t := .openParen) rfl, hts, pieces_blank hspace,
      pieces_symbol (symbol?_symbol o), pieces_blank hspace, hus,
      pieces_symbol (t := .closeParen) rfl]
    simp
  · have hbinary := Phrase.Spelled.binary o (spelled_of_operand hm o.level)
      (spelled_of_operand hn o.level.below)
    have hsum : (Phrase.tree .sum (.binary o e f)).Spelled (ts ++ o.token :: us) (max m n) := by
      cases o with
      | add | sub => exact hbinary
      | mul | div => exact .sum hbinary
    rw [Nat.add_comm]
    exact .group hsum

theorem writes_call {cs : List Char} {es : List Expr} {n : Nat} {name : String}
    (hname : isName name.toList) (h : Writes cs (.arguments es) n (')' :: tail)) :
    Writes (name.toList ++ '(' :: cs) (.tree .operand (.call name es)) (1 + n) tail := by
  obtain ⟨ts, hts, hn⟩ := h
  refine ⟨.name name :: .openParen :: (ts ++ [.closeParen]), ?_, ?_⟩
  · rw [pieces_name hname (delimited_cons (by decide) cs), String.ofList_toList,
      pieces_symbol (t := .openParen) rfl, hts, pieces_symbol (t := .closeParen) rfl]
    simp
  · rw [Nat.add_comm]
    exact .call name hn

theorem writes_more {cs ds : List Char} {e : Expr} {es : List Expr} {m n : Nat}
    (h : Writes cs (.tree .operand e) m (',' :: ' ' :: ds))
    (h' : Writes ds (.someArguments es) n tail) :
    Writes cs (.someArguments (e :: es)) (max m n) tail := by
  obtain ⟨ts, hts, hm⟩ := h
  obtain ⟨us, hus, hn⟩ := h'
  have hspace : isBlank ' ' := by decide
  refine ⟨ts ++ .comma :: us, ?_, .more (spelled_of_operand hm .sum) hn⟩
  rw [hts, pieces_symbol (t := .comma) rfl, pieces_blank hspace, hus]
  simp

theorem writes_arguments (es : List Expr)
    (h : es ≠ [] →
      Writes (argumentChars es tail) (.someArguments (readAllBack es)) (needs es) tail) :
    Writes (argumentChars es tail) (.arguments (readAllBack es)) (needs es) tail := by
  cases es with
  | nil => exact ⟨[], rfl, .none⟩
  | cons e es =>
    obtain ⟨ts, hts, hn⟩ := h (List.cons_ne_nil e es)
    exact ⟨ts, hts, .some hn⟩

mutual

/-- The tokens of a printed tree spell what it is read back as. -/
theorem writes_chars : ∀ (e : Expr) {tail : List Char}, e.hasNames → Delimited tail →
    Writes (e.chars tail) (.tree .operand e.readBack) e.need tail
  | number x, tail, _, ht => by
    unfold chars readBack need
    by_cases hx : isNegative x
    · have hneg := Binary64.neg_eq_abs hx
      have habs := Binary64.isNegative_abs (Binary64.isNaN_of_isNegative hx)
      rw [if_pos hx, if_pos hx, if_pos hx, hneg]
      exact writes_neg (writes_literal habs (delimited_cons (by decide) tail))
    · rw [if_neg hx, if_neg hx, if_neg hx]
      rw [Bool.not_eq_true] at hx
      exact writes_literal hx ht
  | var name, tail, h, ht => by
    rw [chars, readBack, need]
    exact writes_var h ht
  | neg operand, tail, h, _ => by
    rw [chars, readBack, need]
    exact writes_neg (writes_chars operand h (delimited_cons (by decide) tail))
  | binary o left right, tail, h, _ => by
    rw [hasNames, Bool.and_eq_true] at h
    rw [chars, readBack, need]
    exact writes_binary o (writes_chars left h.1 (delimited_cons (by decide) _))
      (writes_chars right h.2 (delimited_cons (by decide) tail))
  | call function arguments, tail, h, _ => by
    rw [hasNames, Bool.and_eq_true] at h
    rw [chars, readBack, need]
    exact writes_call h.1 (writes_arguments arguments fun hne =>
      writes_someArguments arguments hne h.2 (delimited_cons (by decide) tail))

theorem writes_someArguments : ∀ (es : List Expr) {tail : List Char}, es ≠ [] → allHaveNames es →
    Delimited tail →
      Writes (argumentChars es tail) (.someArguments (readAllBack es)) (needs es) tail
  | [], _, hne, _, _ => (hne rfl).elim
  | [e], tail, _, h, ht => by
    rw [allHaveNames, Bool.and_eq_true] at h
    obtain ⟨ts, hts, hn⟩ := writes_chars e h.1 ht
    refine ⟨ts, hts, ?_⟩
    rw [needs, needs, Nat.max_zero]
    exact .last (spelled_of_operand hn .sum)
  | e :: f :: es, tail, _, h, ht => by
    rw [allHaveNames, Bool.and_eq_true] at h
    exact writes_more (writes_chars e h.1 (delimited_cons (by decide) _))
      (writes_someArguments (f :: es) (List.cons_ne_nil f es) h.2 ht)

end

/-! ## Trees that are read back as they are -/

mutual

/-- All literals are finite and without sign. -/
def isPlain : Expr → Bool
  | number x => !isNegative x && !x.isNaN && !x.isInf
  | var _ => true
  | neg operand => operand.isPlain
  | binary _ left right => left.isPlain && right.isPlain
  | call _ arguments => allPlain arguments

/-- Each of the trees is plain. -/
def allPlain : List Expr → Bool
  | [] => true
  | e :: es => e.isPlain && allPlain es

end

mutual

theorem readBack_eq_self : ∀ e : Expr, e.isPlain → e.readBack = e
  | number x, h => by
    simp only [isPlain, Bool.and_eq_true, Bool.not_eq_true'] at h
    rw [readBack, h.1.1, if_neg Bool.false_ne_true, readLiteral, h.1.2, h.2]
    rfl
  | var name, _ => by rw [readBack]
  | neg operand, h => by rw [readBack, readBack_eq_self operand h]
  | binary operator left right, h => by
    rw [isPlain, Bool.and_eq_true] at h
    rw [readBack, readBack_eq_self left h.1, readBack_eq_self right h.2]
  | call function arguments, h => by rw [readBack, readAllBack_eq_self arguments h]

theorem readAllBack_eq_self : ∀ es : List Expr, allPlain es → readAllBack es = es
  | [], _ => by rw [readAllBack]
  | e :: es, h => by
    rw [allPlain, Bool.and_eq_true] at h
    rw [readAllBack, readBack_eq_self e h.1, readAllBack_eq_self es h.2]

end

end Expr

/-! ## Round trip -/

theorem tokenize_text {e : Expr} (h : e.hasNames) :
    ∃ ts, tokenize e.text = .ok ts ∧ (Phrase.tree .sum e.readBack).Spelled ts e.need := by
  obtain ⟨ts, hts, hn⟩ := Expr.writes_chars e h delimited_nil
  refine ⟨ts, ?_, spelled_of_operand hn .sum⟩
  rw [tokenize_eq_ok_iff, pieces_toList, Expr.text, String.toList_ofList, hts, pieces_nil,
    List.append_nil]

/-- **A printed tree is read back.** Whatever tree is printed, its text is read as the tree with
signs made negations and words made variables, if it is within the limits, and else fails for the
limits. A tree without such literals is read as it was. -/
theorem parse_text (e : Expr) (h : e.hasNames) (limits : Limits) :
    (if e.need ≤ limits.depth ∧ e.readBack.height ≤ limits.height then
      parse e.text limits = .ok e.readBack
    else ∃ err : ParseError, err.isLimit ∧ parse e.text limits = .error err) ∧
    (e.isPlain → e.readBack = e) := by
  refine ⟨?_, e.readBack_eq_self⟩
  obtain ⟨ts, hts, hn⟩ := tokenize_text h
  rcases parse_of_spelled hts hn limits with ⟨ha, hok⟩ | ⟨ha, herr⟩
  · exact (if_pos ha).mpr hok
  · exact (if_neg ha).mpr herr

/-- The tree `((-(-0)) * f(NaN, x))`, whose literals are negative zero and a NaN. -/
theorem parse_text_signed :
    let e : Expr := .binary .mul (.neg (.number (-0))) (.call "f" [.number (0 / 0), .var "x"])
    let f : Expr :=
      .binary .mul (.neg (.neg (.number 0))) (.call "f" [.var "NaN", .var "x"])
    e.hasNames ∧ parse e.text = .ok f := by
  intro e f
  have hnames : e.hasNames := rfl
  have hneed : e.need = 5 := rfl
  have hheight : e.readBack.height = 4 := rfl
  have hlimits : e.need ≤ 256 ∧ e.readBack.height ≤ 1024 := by omega
  have hback : e.readBack = f := rfl
  have h := (if_pos hlimits).mp (parse_text e hnames {}).1
  rw [hback] at h
  exact ⟨hnames, h⟩

end Formula
