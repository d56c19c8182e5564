import Formula.Proofs.Leaves
import Formula.Proofs.RoundTrip

/-!
# Printing what was read

A tree is read again from its own text under the same limits, but not always. Its text has
parentheses around every operation, so a long chain that nests nowhere is printed deeply nested; and
a literal that is too large for a double is infinite and printed as a word.

* `Expr.same_readBack`: a tree is equal to what its text is read as if its literals are finite.
* `PrintsBack`: the text of a tree is read as an equal tree.
* **`printsBack_chain`**, **`printsBack_numeral`**: chains of any length and literals of any size.
* **`printsBack_iff`**: all trees that are read.
-/

namespace Formula

namespace Expr

open Binary64 (isUnsigned)

variable {p : Float → Bool} {q : String → Bool}

mutual

theorem hasNames_of_all : ∀ e : Expr, (e.all p fun name => isName name.toList) → e.hasNames
  | number x, _ => by rw [hasNames]
  | var name, h => by
    rw [hasNames]
    exact h
  | neg operand, h => by
    rw [hasNames]
    exact hasNames_of_all operand h
  | binary _ left right, h => by
    rw [all, Bool.and_eq_true] at h
    rw [hasNames, hasNames_of_all left h.1, hasNames_of_all right h.2]
    rfl
  | call function arguments, h => by
    rw [all, Bool.and_eq_true] at h
    rw [hasNames, h.1, allHaveNames_of_allOf arguments h.2]
    rfl

theorem allHaveNames_of_allOf :
    ∀ es : List Expr, (allOf p (fun name => isName name.toList) es) → allHaveNames es
  | [], _ => by rw [allHaveNames]
  | e :: es, h => by
    rw [allOf, Bool.and_eq_true] at h
    rw [allHaveNames, hasNames_of_all e h.1, allHaveNames_of_allOf es h.2]
    rfl

end

theorem readBack_number {x : Float} (h : isUnsigned x) :
    (number x).readBack = if x.isInf then .var "inf" else .number x := by
  rw [isUnsigned, Bool.and_eq_true, Bool.not_eq_true', Bool.not_eq_true'] at h
  rw [readBack, h.1, if_neg Bool.false_ne_true, readLiteral, h.2, if_neg Bool.false_ne_true]

theorem isPlain_number {x : Float} (h : isUnsigned x) : (number x).isPlain = !x.isInf := by
  rw [isUnsigned] at h
  rw [isPlain, h, Bool.true_and]

mutual

theorem height_readBack : ∀ e : Expr, e.all isUnsigned q → e.readBack.height = e.height
  | number x, h => by
    rw [readBack_number h]
    split
    · rw [height, height]
    · rfl
  | var name, _ => by rw [readBack]
  | neg operand, h => by
    rw [readBack, height, height, height_readBack operand h]
  | binary _ left right, h => by
    rw [all, Bool.and_eq_true] at h
    rw [readBack, height, height, height_readBack left h.1, height_readBack right h.2]
  | call function arguments, h => by
    rw [all, Bool.and_eq_true] at h
    rw [readBack, height, height, heights_readAllBack arguments h.2]

theorem heights_readAllBack :
    ∀ es : List Expr, allOf isUnsigned q es → heights (readAllBack es) = heights es
  | [], _ => by rw [readAllBack]
  | e :: es, h => by
    rw [allOf, Bool.and_eq_true] at h
    rw [readAllBack, heights, heights, height_readBack e h.1, heights_readAllBack es h.2]

end

mutual

/-- An infinite literal becomes a name, and all else stays. -/
theorem same_readBack : ∀ e : Expr, e.all isUnsigned q → e.readBack.same e = e.isPlain
  | number x, h => by
    rw [all] at h
    rw [readBack_number h, isPlain_number h]
    rw [isUnsigned, Bool.and_eq_true, Bool.not_eq_true', Bool.not_eq_true'] at h
    cases x.isInf with
    | true => rfl
    | false =>
      rw [if_neg Bool.false_ne_true, same]
      exact Binary64.beq_self h.2
  | var name, _ => by
    rw [readBack, same, isPlain]
    exact beq_self_eq_true name
  | neg operand, h => by
    rw [readBack, same, isPlain, same_readBack operand h]
  | binary o left right, h => by
    rw [all, Bool.and_eq_true] at h
    rw [readBack, same, isPlain, same_readBack left h.1, same_readBack right h.2,
      beq_self_eq_true, Bool.true_and]
  | call function arguments, h => by
    rw [all, Bool.and_eq_true] at h
    rw [readBack, same, isPlain, allSame_readAllBack arguments h.2, beq_self_eq_true,
      Bool.true_and]

theorem allSame_readAllBack :
    ∀ es : List Expr, allOf isUnsigned q es → allSame (readAllBack es) es = allPlain es
  | [], _ => by rw [readAllBack, allSame, allPlain]
  | e :: es, h => by
    rw [allOf, Bool.and_eq_true] at h
    rw [readAllBack, allSame, allPlain, same_readBack e h.1, allSame_readAllBack es h.2]

end

end Expr

/-! ## Trees that are read -/

variable {source : String} {limits : Limits} {e : Expr}

/-- The text of the tree is read as an equal tree. -/
def PrintsBack (limits : Limits) (e : Expr) : Prop :=
  ∃ f, parse e.text limits = .ok f ∧ f.same e

/-- A tree that is made of what a source is made of is read back at its own height, so of the limits
only the one on nesting counts. -/
theorem printsBack_iff_of_isSpellable (h : e.isSpellable) (hheight : e.height ≤ limits.height) :
    PrintsBack limits e ↔ e.need ≤ limits.depth ∧ e.isPlain := by
  obtain ⟨ts, hts, hn⟩ := tokenize_text (e.hasNames_of_all h)
  have hheight' : e.readBack.height ≤ limits.height := by rwa [e.height_readBack h]
  rw [← e.same_readBack h]
  rcases parse_of_spelled hts hn limits with ⟨ha, hok⟩ | ⟨hna, err, -, herr⟩
  · constructor
    · rintro ⟨f, hf, hsame⟩
      cases hok.symm.trans hf
      exact ⟨ha.1, hsame⟩
    · exact fun hsame => ⟨_, hok, hsame.2⟩
  · constructor
    · rintro ⟨f, hf, -⟩
      cases herr.symm.trans hf
    · exact fun hneed => (hna ⟨hneed.1, hheight'⟩).elim

/-! ## Chains -/

/-- The formula `a + a + ⋯ + a` with `n` operators. -/
def chainText (n : Nat) : String := String.ofList ('a' :: (List.replicate n ['+', 'a']).flatten)

/-- Its tree, which leans to the left. -/
def chain : Nat → Expr
  | 0 => .var "a"
  | n + 1 => .binary .add (chain n) (.var "a")

theorem height_chain (n : Nat) : (chain n).height = n + 1 := by
  induction n with
  | zero => rw [chain, Expr.height]
  | succ n ih =>
    rw [chain, Expr.height, ih, Expr.height]
    omega

/-- Every operator has its parentheses. -/
theorem need_chain (n : Nat) : (chain n).need = n := by
  induction n with
  | zero => rw [chain, Expr.need]
  | succ n ih =>
    rw [chain, Expr.need, ih, Expr.need]
    omega

theorem isSpellable_chain (n : Nat) : (chain n).isSpellable := by
  induction n with
  | zero => decide
  | succ n ih =>
    rw [Expr.isSpellable] at ih
    rw [chain, Expr.isSpellable, Expr.all, ih]
    decide

theorem isPlain_chain (n : Nat) : (chain n).isPlain := by
  induction n with
  | zero => rfl
  | succ n ih =>
    rw [chain, Expr.isPlain, ih]
    rfl

theorem spelled_chain (n : Nat) :
    (Phrase.tree .sum (chain n)).Spelled
      (.name "a" :: (List.replicate n [Token.plus, .name "a"]).flatten) 0 := by
  induction n with
  | zero => exact spelled_of_operand (.var "a") .sum
  | succ n ih =>
    have h := Phrase.Spelled.binary .add ih (spelled_of_operand (.var "a") .product)
    rw [List.replicate_succ', List.flatten_append]
    exact h

theorem delimited_chain (n : Nat) : Delimited (List.replicate n ['+', 'a']).flatten := by
  cases n with
  | zero => exact delimited_nil
  | succ n => exact delimited_cons (by decide) _

theorem pieces_term (n : Nat) : pieces ('a' :: (List.replicate n ['+', 'a']).flatten) =
    .token (.name "a") :: pieces (List.replicate n ['+', 'a']).flatten := by
  have hname : isName ['a'] := by decide
  exact pieces_name hname (delimited_chain n)

theorem pieces_chain (n : Nat) : pieces (List.replicate n ['+', 'a']).flatten =
    (List.replicate n [Token.plus, .name "a"]).flatten.map .token := by
  induction n with
  | zero =>
    rw [List.replicate_zero, List.flatten_nil, pieces_nil]
    rfl
  | succ n ih =>
    rw [List.replicate_succ, List.flatten_cons, List.cons_append, pieces_symbol (t := .plus) rfl,
      List.singleton_append, pieces_term, ih]
    rfl

theorem tokenize_chain (n : Nat) : tokenize (chainText n) =
    .ok (.name "a" :: (List.replicate n [Token.plus, .name "a"]).flatten) := by
  rw [tokenize_eq_ok_iff, pieces_toList, chainText, String.toList_ofList, pieces_term, pieces_chain,
    List.map_cons]

theorem parse_chain {n : Nat} (h : n < limits.height) :
    parse (chainText n) limits = .ok (chain n) := by
  refine parse_of_admits (tokenize_chain n) (spelled_chain n) ⟨Nat.zero_le _, ?_⟩
  rw [height_chain]
  exact h

/-- **The text of a chain is judged by the limit on nesting**, where its source was judged by the
limit on heights. -/
theorem printsBack_chain {n : Nat} (h : n < limits.height) :
    PrintsBack limits (chain n) ↔ n ≤ limits.depth := by
  have hheight : (chain n).height ≤ limits.height := by
    rw [height_chain]
    exact h
  rw [printsBack_iff_of_isSpellable (isSpellable_chain n) hheight, need_chain, isPlain_chain]
  exact and_iff_left rfl

/-! ## Literals -/

theorem parse_numeral {n : Numeral} (hn : n.OfDigits) (hd : n.hasDigit) (h : 1 ≤ limits.height) :
    parse (String.ofList n.spelling) limits = .ok (.number n.decimal.toFloat) := by
  have hts : tokenize (String.ofList n.spelling) = .ok [.number n.decimal.toFloat] := by
    rw [tokenize_eq_ok_iff, pieces_toList, String.toList_ofList]
    have hpieces := pieces_numeral hn hd delimited_nil
    rw [List.append_nil, pieces_nil] at hpieces
    exact hpieces
  have hspelled := spelled_of_operand (.number n.decimal.toFloat) .sum
  refine parse_of_admits hts hspelled ⟨Nat.zero_le _, ?_⟩
  rwa [Expr.height]

theorem Decimal.isInf_toFloat (d : Decimal) : d.toFloat.isInf ↔ Binary64.top ≤ d.rank := by
  rw [toFloat, Binary64.ofRatio, Binary64.isInf_ofRank, rank]

/-- **The text of a literal is a number again only below infinity.** -/
theorem printsBack_numeral {n : Numeral} (h : 1 ≤ limits.height) :
    PrintsBack limits (.number n.decimal.toFloat) ↔ n.decimal.rank < Binary64.top := by
  have hunsigned := n.decimal.isUnsigned_toFloat
  have hspellable : (Expr.number n.decimal.toFloat).isSpellable := by
    rwa [Expr.isSpellable, Expr.all]
  have hneed : (Expr.number n.decimal.toFloat).need = 0 := by
    rw [Binary64.isUnsigned, Bool.and_eq_true, Bool.not_eq_true'] at hunsigned
    rw [Expr.need, hunsigned.1, if_neg Bool.false_ne_true]
  have hheight : (Expr.number n.decimal.toFloat).height ≤ limits.height := by rwa [Expr.height]
  rw [printsBack_iff_of_isSpellable hspellable hheight, hneed, Expr.isPlain_number hunsigned,
    Bool.not_eq_true', Bool.eq_false_iff, ne_eq, Decimal.isInf_toFloat, Nat.not_le]
  exact and_iff_right (Nat.zero_le _)

/-! ## Sources -/

/-- **Which trees that are read print as text that is read as an equal tree.** Those whose text
nests no deeper than the limits allow, and whose literals are finite. -/
theorem printsBack_iff (h : parse source limits = .ok e) :
    PrintsBack limits e ↔ e.need ≤ limits.depth ∧ e.isPlain := by
  obtain ⟨ts, n, -, -, -, hheight⟩ := spelled_of_parse h
  exact printsBack_iff_of_isSpellable (isSpellable_of_parse h) hheight

/-- A sum of two terms is within the limits. -/
theorem printsBack_iff_short :
    parse "a+a" = .ok (.binary .add (.var "a") (.var "a")) ∧
      PrintsBack {} (.binary .add (.var "a") (.var "a")) := by
  have h : parse "a+a" = .ok (.binary .add (.var "a") (.var "a")) :=
    parse_chain (n := 1) (by show 1 < 1024; omega)
  exact ⟨h, (printsBack_iff h).2 ⟨by show 1 ≤ 256; omega, rfl⟩⟩

/-- A sum of 258 terms, whose text nests 257 deep, and a `1` with 309 zeros, whose text is `inf`. -/
theorem printsBack_fails :
    let literal : Numeral := ⟨'1' :: List.replicate 309 '0', none⟩
    (parse (chainText 257) = .ok (chain 257) ∧ ¬ PrintsBack {} (chain 257)) ∧
      parse (String.ofList literal.spelling) = .ok (.number literal.decimal.toFloat) ∧
        ¬ PrintsBack {} (.number literal.decimal.toFloat) := by
  intro literal
  have hrank : Binary64.top ≤ literal.decimal.rank := by decide +kernel
  have hheight : 257 < ({} : Limits).height := by
    show 257 < 1024
    omega
  have hdepth : ¬ 257 ≤ ({} : Limits).depth := by
    show ¬ 257 ≤ 256
    omega
  refine ⟨⟨parse_chain hheight, ?_⟩, parse_numeral ⟨?_, rfl⟩ rfl ?_, ?_⟩
  · rw [printsBack_chain hheight]
    exact hdepth
  · simp only [literal, List.all_cons, List.all_replicate]
    rfl
  · omega
  · rw [printsBack_numeral (by omega)]
    omega

end Formula
