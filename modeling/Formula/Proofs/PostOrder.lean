import Formula.Evaluate

/-!
# Evaluation is post-order

* `Expr.postOrder`: the plain recursive evaluation, operands before their operation.
* `Expr.evaluate_eq_postOrder`: the two evaluations agree in every lawful monad.
* `Context.recording`: a context that writes down what it is asked, and whose answers may depend on
  it.
* `Concludes`: the run ends at the first request that is refused, if there is one.
* **`evaluate_recorded`**: both evaluations ask the same, and nothing after a refusal.
-/

namespace Formula

/-! ## Plain evaluation -/

namespace Expr

variable {m : Type → Type} [Monad m] (context : Context m)

mutual

/-- The value of a tree, by plain recursion. -/
def postOrder : Expr → m Float
  | number value => return value
  | var name => context.resolve name
  | neg operand => return -(← operand.postOrder)
  | binary operator left right => do
    let x ← left.postOrder
    let y ← right.postOrder
    return operator.apply x y
  | call function arguments => do
    let values ← postOrderAll arguments
    context.call function values

/-- The values of some trees, each in post-order. -/
def postOrderAll : List Expr → m (List Float)
  | [] => return []
  | e :: es => do
    let x ← e.postOrder
    let xs ← postOrderAll es
    return x :: xs

end

variable {context}

theorem resume_nil : (resume [] : Float → m Float) = pure := rfl

theorem resume_cons (operation : Float → m Float) (waiting : List (Float → m Float)) (x : Float) :
    resume (operation :: waiting) x = operation x >>= resume waiting := by
  rw [resume, List.foldlM_cons]
  rfl

variable [LawfulMonad m]

mutual

/-- What waits for a tree is resumed with its value. -/
theorem evaluateThen_eq : ∀ (e : Expr) (waiting : List (Float → m Float)),
    e.evaluateThen context waiting = e.postOrder context >>= resume waiting
  | number value, waiting => by rw [evaluateThen, postOrder, pure_bind]
  | var name, waiting => by rw [evaluateThen, postOrder]
  | neg operand, waiting => by
    rw [evaluateThen, postOrder, evaluateThen_eq operand, resume_nil, bind_pure, bind_assoc]
    simp only [pure_bind]
  | binary operator left right, waiting => by
    rw [evaluateThen, postOrder, evaluateThen_eq left, bind_assoc]
    refine bind_congr fun x => ?_
    -- the right operand waits until the left one has its value
    rw [resume_cons, evaluateThen_eq right, resume_nil, bind_pure]
  | call function arguments, waiting => by
    rw [evaluateThen, postOrder, evaluateAll_eq arguments, bind_assoc]

theorem evaluateAll_eq : ∀ es : List Expr, evaluateAll context es = postOrderAll context es
  | [] => by rw [evaluateAll, postOrderAll]
  | e :: es => by
    rw [evaluateAll, postOrderAll, evaluateThen_eq e, evaluateAll_eq es, resume_nil, bind_pure]

end

theorem evaluate_eq_postOrder (e : Expr) : e.evaluate context = e.postOrder context := by
  rw [evaluate, evaluateThen_eq, resume_nil, bind_pure]

end Expr

/-! ## Recorded runs -/

/-- What a context is asked. -/
inductive Request
  | resolve (name : String)
  | call (function : String) (values : List Float)

/-- A computation that may fail, with the requests made so far. They are kept when it fails. -/
abbrev Recorded (ε : Type) := ExceptT ε (StateM (List Request))

variable {ε α β : Type}

namespace Recorded

/-- The outcome after the requests `made`, and all requests then. -/
def outcome (r : Recorded ε α) (made : List Request) : Except ε α × List Request := r.run made

variable (answer : List Request → Request → Except ε Float)

/-- Makes a request. Its answer may depend on the requests before it. -/
def ask (request : Request) : Recorded ε Float :=
  ExceptT.mk fun made => (answer made request, made ++ [request])

end Recorded

/-- The context that answers by the requests so far. -/
def Context.recording (answer : List Request → Request → Except ε Float) :
    Context (Recorded ε) where
  resolve name := Recorded.ask answer (.resolve name)
  call function values := Recorded.ask answer (.call function values)

/-- Each of the requests was granted. -/
def Granted (answer : List Request → Request → Except ε Float) (made : List Request) : Prop :=
  ∀ before request, before ++ [request] <+: made → ∃ x, answer before request = .ok x

/-- A value comes when all requests are granted. An error is that of the last request, and is the
first one. -/
def Concludes (answer : List Request → Request → Except ε Float) :
    Except ε α × List Request → Prop
  | (.ok _, made) => Granted answer made
  | (.error e, made) => ∃ before request, made = before ++ [request] ∧ Granted answer before ∧
      answer before request = .error e

section Concluding

variable {answer : List Request → Request → Except ε Float} {made : List Request}
  {request : Request}

theorem granted_nil : Granted answer [] := by
  intro before request h
  rw [List.prefix_nil] at h
  exact absurd h (by simp)

theorem Granted.concat (h : Granted answer made) {x : Float} (hx : answer made request = .ok x) :
    Granted answer (made ++ [request]) := by
  intro before last hlast
  rw [List.prefix_concat_iff] at hlast
  rcases hlast with heq | hlast
  · obtain ⟨rfl, hr⟩ := List.append_inj' heq rfl
    cases hr
    exact ⟨x, hx⟩
  · exact h before last hlast

variable (answer) in
/-- A computation that keeps to the requests being granted. -/
def Concluding (r : Recorded ε α) : Prop :=
  ∀ made, Granted answer made → Concludes answer (r.outcome made)

theorem concluding_pure (a : α) : Concluding answer (pure a : Recorded ε α) := fun _ h => h

theorem Recorded.outcome_bind (r : Recorded ε α) (k : α → Recorded ε β) (made : List Request) :
    (r >>= k).outcome made =
      match r.outcome made with
      | (.ok a, made) => (k a).outcome made
      | (.error e, made) => (.error e, made) := by
  show (match r.outcome made with | (a, made) => ExceptT.bindCont k a made) = _
  generalize r.outcome made = after
  obtain ⟨e | a, after⟩ := after
  · rfl
  · rfl

theorem Concluding.bind {r : Recorded ε α} {k : α → Recorded ε β} (h : Concluding answer r)
    (hk : ∀ a, Concluding answer (k a)) : Concluding answer (r >>= k) := by
  intro made hmade
  have hr := h made hmade
  rw [Recorded.outcome_bind]
  generalize r.outcome made = after at hr ⊢
  obtain ⟨e | a, after⟩ := after
  · exact hr
  · exact hk a after hr

theorem concluding_ask (request : Request) : Concluding answer (Recorded.ask answer request) := by
  intro made hmade
  show Concludes answer (answer made request, made ++ [request])
  cases h : answer made request with
  | ok x => exact hmade.concat h
  | error e => exact ⟨made, request, rfl, hmade, h⟩

mutual

/-- Nothing is asked after a refusal. -/
theorem concluding_postOrder : ∀ e : Expr, Concluding answer (e.postOrder (.recording answer))
  | .number value => by
    rw [Expr.postOrder]
    exact concluding_pure value
  | .var name => by
    rw [Expr.postOrder]
    exact concluding_ask (.resolve name)
  | .neg operand => by
    rw [Expr.postOrder]
    exact (concluding_postOrder operand).bind fun x => concluding_pure (-x)
  | .binary operator left right => by
    rw [Expr.postOrder]
    refine (concluding_postOrder left).bind fun x => ?_
    exact (concluding_postOrder right).bind fun y => concluding_pure (operator.apply x y)
  | .call function arguments => by
    rw [Expr.postOrder]
    refine (concluding_postOrderAll arguments).bind fun values => ?_
    exact concluding_ask (.call function values)

theorem concluding_postOrderAll :
    ∀ es : List Expr, Concluding answer (Expr.postOrderAll (.recording answer) es)
  | [] => by
    rw [Expr.postOrderAll]
    exact concluding_pure []
  | e :: es => by
    rw [Expr.postOrderAll]
    refine (concluding_postOrder e).bind fun x => ?_
    exact (concluding_postOrderAll es).bind fun xs => concluding_pure (x :: xs)

end

end Concluding

/-- **Evaluation is post-order.** A tree has the value or the error of its plain evaluation, and
asks the context the same in the same order. What fails is the last request, and its error is
kept. -/
theorem evaluate_recorded (answer : List Request → Request → Except ε Float) (e : Expr) :
    (e.evaluate (.recording answer)).outcome [] = (e.postOrder (.recording answer)).outcome [] ∧
      Concludes answer ((e.evaluate (.recording answer)).outcome []) ∧
      ∀ {m : Type → Type} [Monad m] [LawfulMonad m] (context : Context m),
        e.evaluate context = e.postOrder context := by
  refine ⟨by rw [Expr.evaluate_eq_postOrder], ?_, fun context => e.evaluate_eq_postOrder⟩
  rw [Expr.evaluate_eq_postOrder]
  exact concluding_postOrder e [] granted_nil

/-- The value of `a - f(b, c)`, where `b` is unknown. -/
theorem evaluate_recorded_refused :
    let answer (_ : List Request) : Request → Except EvalError Float
      | .resolve "b" => .error (.unknownVariable "b")
      | _ => .ok 1
    let e : Expr := .binary .sub (.var "a") (.call "f" [.var "b", .var "c"])
    (e.evaluate (.recording answer)).outcome [] =
        (.error (.unknownVariable "b"), [.resolve "a", .resolve "b"]) ∧
      Concludes answer ((e.evaluate (.recording answer)).outcome []) := by
  intro answer e
  exact ⟨rfl, (evaluate_recorded answer e).2.1⟩

end Formula
