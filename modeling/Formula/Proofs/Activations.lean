import Mathlib
import Formula.Proofs.Acceptance
import Formula.Proofs.PostOrder

/-!
# How deep evaluation nests

A tree is evaluated by an activation that evaluates parts of it by activations of their own. A chain
of operations is walked in one activation, so only the operand at its bottom and its right operands
nest. This holds the nesting of evaluation by that of the source, however high the tree is.

* `Expr.activations`: the greatest number of activations at once.
* `Expr.evaluateWithin`: evaluation that gives up when more than so many are wanted.
* **`Expr.activations_le_iff`**: it does not give up if and only if there are enough.
* `Phrase.Spelled.takesFor`: the activations of a tree by its level and the nesting of its
  tokens.
* **`activations_of_parse`**: a tree that is read takes three activations for each level of nesting
  that the limits allow, and three more.
-/

namespace Formula

namespace Expr

/-! ## Chains -/

/-- The operand at the bottom of the chain, and the operators above it, each with its right operand,
the lowest first. -/
def spine : Expr → Expr × List (Operator × Expr)
  | binary operator left right => (left.spine.1, left.spine.2 ++ [(operator, right)])
  | e => (e, [])

mutual

/-- How many activations there are at once, at most, while the tree is evaluated. -/
def activations : Expr → Nat
  | number _ => 1
  | var _ => 1
  | neg operand => operand.activations + 1
  | binary _ left right => max left.spineActivations right.activations + 1
  | call _ arguments => activationsOf arguments + 1

/-- The greatest number of activations for the operands of a chain: the one at its bottom and the
right ones. What is no operation is its own bottom. -/
def spineActivations : Expr → Nat
  | number _ => 1
  | var _ => 1
  | neg operand => operand.activations + 1
  | binary _ left right => max left.spineActivations right.activations
  | call _ arguments => activationsOf arguments + 1

/-- The greatest number of activations for the trees of a list, `0` for none. -/
def activationsOf : List Expr → Nat
  | [] => 0
  | e :: es => max e.activations (activationsOf es)

end

theorem activationsOf_le_iff {es : List Expr} {n : Nat} :
    activationsOf es ≤ n ↔ ∀ e ∈ es, e.activations ≤ n := by
  induction es with
  | nil => simp [activationsOf]
  | cons e es ih => rw [activationsOf, Nat.max_le, ih, List.forall_mem_cons]

theorem spineActivations_le_iff {n : Nat} : ∀ {e : Expr}, e.spineActivations ≤ n ↔
    e.spine.1.activations ≤ n ∧ ∀ p ∈ e.spine.2, p.2.activations ≤ n
  | number _ => by simp [spineActivations, spine, activations]
  | var _ => by simp [spineActivations, spine, activations]
  | neg _ => by simp [spineActivations, spine, activations]
  | call _ _ => by simp [spineActivations, spine, activations]
  | binary _ left right => by
    rw [spineActivations, spine, Nat.max_le, spineActivations_le_iff (e := left)]
    simp only [List.forall_mem_append, List.forall_mem_singleton, and_assoc]

/-! ## Evaluation with a given number of activations -/

section Evaluation

variable {m : Type → Type} [Monad m] {context : Context m} {fuel : Nat}

variable (context) in
/-- The value of a tree by at most `fuel` activations at once; there is none if that is too few. -/
def evaluateWithin : Nat → Expr → OptionT m Float
  | 0, _ => failure
  | _ + 1, number value => return value
  | _ + 1, var name => context.resolve name
  | fuel + 1, neg operand => return -(← evaluateWithin fuel operand)
  | fuel + 1, binary operator left right => do
    let x ← evaluateWithin fuel (binary operator left right).spine.1
    (binary operator left right).spine.2.foldlM
      (fun x p => return p.1.apply x (← evaluateWithin fuel p.2)) x
  | fuel + 1, call function arguments => do
    let values ← arguments.mapM (evaluateWithin fuel)
    context.call function values

variable [LawfulMonad m]

/-- A chain has the value of its bottom, taken through its operations. -/
theorem postOrder_eq_foldlM : ∀ e : Expr, e.postOrder context = do
    let x ← e.spine.1.postOrder context
    e.spine.2.foldlM (fun x p => return p.1.apply x (← p.2.postOrder context)) x
  | number _ => by simp [spine]
  | var _ => by simp [spine]
  | neg _ => by simp [spine]
  | call _ _ => by simp [spine]
  | binary operator left right => by
    rw [postOrder, postOrder_eq_foldlM left, spine]
    simp

theorem foldlM_evaluateWithin {operations : List (Operator × Expr)}
    (h : ∀ p ∈ operations, p.2.evaluateWithin context fuel = liftM (p.2.postOrder context))
    (x : Float) :
    operations.foldlM (fun x p => return p.1.apply x (← p.2.evaluateWithin context fuel)) x =
      (liftM (operations.foldlM (fun x p => return p.1.apply x (← p.2.postOrder context)) x) :
        OptionT m Float) := by
  induction operations generalizing x with
  | nil => simp
  | cons p operations ih =>
    rw [List.forall_mem_cons] at h
    simp only [List.foldlM_cons, h.1, ih h.2, liftM_bind, bind_assoc, pure_bind]

theorem mapM_evaluateWithin {es : List Expr}
    (h : ∀ e ∈ es, e.evaluateWithin context fuel = liftM (e.postOrder context)) :
    es.mapM (evaluateWithin context fuel) =
      (liftM (postOrderAll context es) : OptionT m (List Float)) := by
  induction es with
  | nil => simp [postOrderAll]
  | cons e es ih =>
    rw [List.forall_mem_cons] at h
    simp only [List.mapM_cons, postOrderAll, h.1, ih h.2, liftM_bind, liftM_pure]

/-- **Enough activations give the value.** -/
theorem evaluateWithin_eq {e : Expr} (h : e.activations ≤ fuel) :
    e.evaluateWithin context fuel = liftM (e.postOrder context) := by
  induction fuel generalizing e with
  | zero => cases e <;> simp [activations] at h
  | succ fuel ih =>
    cases e with
    | number value => simp [evaluateWithin, postOrder]
    | var name => simp [evaluateWithin, postOrder]
    | neg operand =>
      rw [activations, Nat.succ_le_succ_iff] at h
      simp [evaluateWithin, postOrder, ih h]
    | binary operator left right =>
      have hspine : (binary operator left right).spineActivations ≤ fuel := Nat.succ_le_succ_iff.1 h
      obtain ⟨hbottom, hright⟩ := spineActivations_le_iff.1 hspine
      rw [evaluateWithin, postOrder_eq_foldlM, ih hbottom, liftM_bind]
      exact bind_congr fun x => foldlM_evaluateWithin (fun p hp => ih (hright p hp)) x
    | call function arguments =>
      rw [activations, Nat.succ_le_succ_iff, activationsOf_le_iff] at h
      rw [evaluateWithin, postOrder, mapM_evaluateWithin fun e he => ih (h e he), liftM_bind]

end Evaluation

/-! ## No fewer activations -/

/-- A context that answers everything. -/
def answering : Context Id := ⟨fun _ => 0, fun _ _ => 0⟩

theorem exists_of_bind_eq_pure {α β : Type} {x : OptionT Id α} {f : α → OptionT Id β} {b : β}
    (h : x >>= f = pure b) : ∃ a, x = pure a ∧ f a = pure b := by
  cases x with
  | none => cases h
  | some a => exact ⟨a, rfl, h⟩

theorem exists_of_foldlM_eq_pure {fuel : Nat} {operations : List (Operator × Expr)} {x y : Float}
    (h : operations.foldlM
      (fun x p => return p.1.apply x (← p.2.evaluateWithin answering fuel)) x = pure y) :
    ∀ p ∈ operations, ∃ z, p.2.evaluateWithin answering fuel = pure z := by
  induction operations generalizing x with
  | nil => nofun
  | cons p operations ih =>
    rw [List.foldlM_cons] at h
    obtain ⟨_, hfirst, hrest⟩ := exists_of_bind_eq_pure h
    obtain ⟨z, hz, -⟩ := exists_of_bind_eq_pure hfirst
    exact List.forall_mem_cons.2 ⟨⟨z, hz⟩, ih hrest⟩

theorem exists_of_mapM_eq_pure {fuel : Nat} {es : List Expr} {ys : List Float}
    (h : es.mapM (evaluateWithin answering fuel) = pure ys) :
    ∀ e ∈ es, ∃ z, e.evaluateWithin answering fuel = pure z := by
  induction es generalizing ys with
  | nil => nofun
  | cons e es ih =>
    rw [List.mapM_cons] at h
    obtain ⟨z, hz, hrest⟩ := exists_of_bind_eq_pure h
    obtain ⟨_, hzs, -⟩ := exists_of_bind_eq_pure hrest
    exact List.forall_mem_cons.2 ⟨⟨z, hz⟩, ih hzs⟩

/-- Where nothing is refused, a value needs all of the activations. -/
theorem activations_le_of_evaluateWithin {fuel : Nat} {e : Expr} {y : Float}
    (h : e.evaluateWithin answering fuel = pure y) : e.activations ≤ fuel := by
  induction fuel generalizing e y with
  | zero => cases h
  | succ fuel ih =>
    cases e with
    | number value => simp [activations]
    | var name => simp [activations]
    | neg operand =>
      obtain ⟨x, hx, -⟩ := exists_of_bind_eq_pure h
      rw [activations]
      exact Nat.succ_le_succ (ih hx)
    | binary operator left right =>
      obtain ⟨x, hx, hrest⟩ := exists_of_bind_eq_pure h
      have hspine : (binary operator left right).spineActivations ≤ fuel := by
        refine spineActivations_le_iff.2 ⟨ih hx, fun p hp => ?_⟩
        obtain ⟨z, hz⟩ := exists_of_foldlM_eq_pure hrest p hp
        exact ih hz
      exact Nat.succ_le_succ hspine
    | call function arguments =>
      obtain ⟨xs, hxs, -⟩ := exists_of_bind_eq_pure h
      rw [activations]
      refine Nat.succ_le_succ (activationsOf_le_iff.2 fun e he => ?_)
      obtain ⟨z, hz⟩ := exists_of_mapM_eq_pure hxs e he
      exact ih hz

/-- **How many activations are enough.** There are enough if and only if evaluation by that many is
evaluation, whatever the context. -/
theorem activations_le_iff {e : Expr} {fuel : Nat} : e.activations ≤ fuel ↔
    ∀ {m : Type → Type} [Monad m] [LawfulMonad m] (context : Context m),
      e.evaluateWithin context fuel = liftM (e.evaluate context) := by
  constructor
  · intro h m _ _ context
    rw [evaluateWithin_eq h, evaluate_eq_postOrder]
  · intro h
    exact activations_le_of_evaluateWithin (h answering)

end Expr

/-! ## Trees that are read -/

/-- The activations of what a phrase of nesting `n` is read as. Three levels of operations stand
inside of each level of nesting. -/
def Phrase.TakesFor (n : Nat) : Phrase → Prop
  | tree l e => e.spineActivations ≤ 3 * n + l.below.rank + 1 ∧ e.activations ≤ 3 * n + l.rank + 1
  | arguments es => Expr.activationsOf es ≤ 3 * n + 3
  | someArguments es => Expr.activationsOf es ≤ 3 * n + 3

/-- **The activations of a tree by its level and the nesting of its tokens.** -/
theorem Phrase.Spelled.takesFor {ph : Phrase} {ts : List Token} {n : Nat} (h : ph.Spelled ts n) :
    ph.TakesFor n := by
  induction h with
  | number value => simp [TakesFor, Expr.spineActivations, Expr.activations]
  | var name => simp [TakesFor, Expr.spineActivations, Expr.activations]
  | plus _ ih =>
    simp only [TakesFor, Level.below, Level.rank] at ih ⊢
    omega
  | minus _ ih =>
    simp only [TakesFor, Level.below, Level.rank, Expr.spineActivations, Expr.activations] at ih ⊢
    omega
  | group _ ih =>
    simp only [TakesFor, Level.below, Level.rank] at ih ⊢
    omega
  | call function _ ih =>
    simp only [TakesFor, Level.below, Level.rank, Expr.spineActivations, Expr.activations] at ih ⊢
    omega
  | product _ ih =>
    simp only [TakesFor, Level.below, Level.rank] at ih ⊢
    omega
  | sum _ ih =>
    simp only [TakesFor, Level.below, Level.rank] at ih ⊢
    omega
  | binary o _ _ ihl ihr =>
    -- the right operand is of the level below, and one more activation walks the chain
    simp only [TakesFor, Expr.spineActivations, Expr.activations] at ihl ihr ⊢
    cases o <;> simp only [Operator.level, Level.below, Level.rank] at ihl ihr ⊢ <;> omega
  | none => simp [TakesFor, Expr.activationsOf]
  | some _ ih => exact ih
  | last _ ih =>
    simp only [TakesFor, Level.rank, Expr.activationsOf] at ih ⊢
    omega
  | more _ _ ihe ihes =>
    simp only [TakesFor, Level.rank, Expr.activationsOf] at ihe ihes ⊢
    omega

variable {source : String} {limits : Limits} {e : Expr}

/-- **Evaluation nests no deeper than the source may.** However high a tree that is read may be and
however long its chains, three activations at once for each level of nesting that the limits allow,
and three more, evaluate it. -/
theorem activations_of_parse (h : parse source limits = .ok e) :
    e.activations ≤ 3 * limits.depth + 3 ∧
      ∀ {m : Type → Type} [Monad m] [LawfulMonad m] (context : Context m),
        e.evaluateWithin context (3 * limits.depth + 3) = liftM (e.evaluate context) := by
  obtain ⟨ts, n, -, hn, hdepth, -⟩ := spelled_of_parse h
  have hle : e.activations ≤ 3 * limits.depth + 3 := by
    have htakes := hn.takesFor.2
    simp only [Level.rank] at htakes
    omega
  exact ⟨hle, Expr.activations_le_iff.1 hle⟩

/-- A call at the end of a chain of each level, inside and outside, wants all that there are. -/
theorem activations_of_parse_nested :
    let e : Expr := .binary .add (.var "x") (.binary .mul (.var "y")
      (.call "f" [.binary .add (.var "a") (.binary .mul (.var "b") (.var "c"))]))
    parse "x+y*f(a+b*c)" ⟨1, 6⟩ = .ok e ∧ e.activations = 3 * 1 + 3 ∧
      e.evaluateWithin Expr.answering (3 * 1 + 3) = liftM (e.evaluate Expr.answering) := by
  intro e
  have h : parse "x+y*f(a+b*c)" ⟨1, 6⟩ = .ok e := by cbv
  obtain ⟨hle, hwithin⟩ := activations_of_parse h
  refine ⟨h, Nat.le_antisymm hle ?_, hwithin Expr.answering⟩
  show 6 ≤ e.activations
  decide

end Formula
