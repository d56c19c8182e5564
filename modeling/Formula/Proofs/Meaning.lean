import Mathlib
import Formula.Proofs.PostOrder
import Formula.Proofs.PrintsBack

/-!
# Printed trees keep their meaning

A tree is not always read back as it was: a literal with a sign becomes a negation. The value that
the negation has is the literal, so the two trees cannot be told apart by evaluating them.

* `Expr.isWritable`: the literals are finite, and the names are names.
* `Expr.postOrder_readBack`: what is read back is evaluated as what was printed.
* **`evaluate_parse_text`**: so is whatever the text of a tree is read as.
-/

namespace Formula

namespace Expr

open Binary64 (isNegative)

/-- The literals of the tree are finite, and its names are names in a source as well. -/
def isWritable (e : Expr) : Bool :=
  e.all (fun x => !x.isNaN && !x.isInf) fun name => isName name.toList

theorem readLiteral_of_finite {x : Float} (hx : x.isNaN = false) (hi : x.isInf = false) :
    readLiteral x = number x := by
  rw [readLiteral, hx, hi, if_neg Bool.false_ne_true, if_neg Bool.false_ne_true]

variable {m : Type → Type} [Monad m] {context : Context m} {q : String → Bool}

theorem postOrder_readBack_number [LawfulMonad m] {x : Float} (hx : x.isNaN = false)
    (hi : x.isInf = false) :
    (number x).readBack.postOrder context = (number x).postOrder context := by
  rw [readBack]
  by_cases hn : isNegative x
  · have habs := Binary64.isNaN_abs hx
    have hinf : x.abs.isInf = false := (Binary64.isInf_abs hx).trans hi
    rw [if_pos hn, readLiteral_of_finite habs hinf, postOrder, postOrder, postOrder, pure_bind,
      Binary64.neg_abs hn]
  · rw [if_neg hn, readLiteral_of_finite hx hi]

mutual

/-- **What is read back is evaluated as what was printed.** -/
theorem postOrder_readBack [LawfulMonad m] : ∀ e : Expr,
    e.all (fun x => !x.isNaN && !x.isInf) q →
      e.readBack.postOrder context = e.postOrder context
  | number x, h => by
    rw [all, Bool.and_eq_true, Bool.not_eq_true', Bool.not_eq_true'] at h
    exact postOrder_readBack_number h.1 h.2
  | var name, _ => by rw [readBack]
  | neg operand, h => by rw [readBack, postOrder, postOrder, postOrder_readBack operand h]
  | binary operator left right, h => by
    rw [all, Bool.and_eq_true] at h
    rw [readBack, postOrder, postOrder, postOrder_readBack left h.1, postOrder_readBack right h.2]
  | call function arguments, h => by
    rw [all, Bool.and_eq_true] at h
    rw [readBack, postOrder, postOrder, postOrderAll_readAllBack arguments h.2]

theorem postOrderAll_readAllBack [LawfulMonad m] : ∀ es : List Expr,
    allOf (fun x => !x.isNaN && !x.isInf) q es →
      postOrderAll context (readAllBack es) = postOrderAll context es
  | [], _ => by rw [readAllBack]
  | e :: es, h => by
    rw [allOf, Bool.and_eq_true] at h
    rw [readAllBack, postOrderAll, postOrderAll, postOrder_readBack e h.1,
      postOrderAll_readAllBack es h.2]

end

theorem evaluate_readBack [LawfulMonad m] {e : Expr} (h : e.isWritable) :
    e.readBack.evaluate context = e.evaluate context := by
  rw [evaluate_eq_postOrder, evaluate_eq_postOrder, postOrder_readBack e h]

end Expr

/-- **Printed trees keep their meaning.** The text of a tree is read under all limits that are large
enough for it, and what it is read as has the value or the error of the tree, asking every context
the same in the same order. -/
theorem evaluate_parse_text (e : Expr) (h : e.isWritable) (limits : Limits) :
    ((∃ f, parse e.text limits = .ok f) ↔
      e.need ≤ limits.depth ∧ e.readBack.height ≤ limits.height) ∧
    ∀ f, parse e.text limits = .ok f →
      (∀ {m : Type → Type} [Monad m] [LawfulMonad m] (context : Context m),
        f.evaluate context = e.evaluate context) ∧
      ∀ {ε : Type} (answer : List Request → Request → Except ε Float),
        (f.evaluate (.recording answer)).outcome [] =
          (e.evaluate (.recording answer)).outcome [] := by
  obtain ⟨ts, hts, hn⟩ := tokenize_text (e.hasNames_of_all h)
  rcases parse_of_spelled hts hn limits with ⟨ha, hok⟩ | ⟨hna, err, -, herr⟩
  · refine ⟨iff_of_true ⟨_, hok⟩ ha, fun f hf => ?_⟩
    obtain rfl : e.readBack = f := Except.ok.inj (hok.symm.trans hf)
    refine ⟨fun context => e.evaluate_readBack h, fun answer => ?_⟩
    rw [e.evaluate_readBack h]
  · have hnone : ∀ f, parse e.text limits ≠ .ok f := by
      intro f hf
      cases herr.symm.trans hf
    exact ⟨iff_of_false (fun ⟨f, hf⟩ => hnone f hf) hna, fun f hf => (hnone f hf).elim⟩

/-- The tree `x - f(-0, -2)`, whose literals are read back as negations. -/
theorem evaluate_parse_text_signed :
    let e : Expr := .binary .sub (.var "x") (.call "f" [.number (-0), .number (-2)])
    let f : Expr := .binary .sub (.var "x") (.call "f" [.neg (.number 0), .neg (.number 2)])
    e.isWritable ∧ parse e.text = .ok f ∧
      ∀ answer : List Request → Request → Except EvalError Float,
        (f.evaluate (.recording answer)).outcome [] =
          (e.evaluate (.recording answer)).outcome [] := by
  intro e f
  have hwritable : e.isWritable := by decide +kernel
  have hdepth : e.need ≤ ({} : Limits).depth := by decide +kernel
  have hheight : e.readBack.height ≤ ({} : Limits).height := by decide +kernel
  obtain ⟨ts, hts, hn⟩ := tokenize_text (e.hasNames_of_all hwritable)
  have hparse : parse e.text = .ok f := parse_of_admits hts hn ⟨hdepth, hheight⟩
  exact ⟨hwritable, hparse, ((evaluate_parse_text e hwritable {}).2 f hparse).2⟩

end Formula
