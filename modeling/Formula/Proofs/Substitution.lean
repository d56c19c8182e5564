import Formula.Proofs.Agreement

/-!
# Giving a variable a value is substituting it

* `Expr.substitute`: a literal in the places of a variable. A function of the same name stays.
* `Context.assign`: a context to which the value of one variable is given.
* `Expr.postOrder_substitute`: in every monad, the literals stand for the value that is given.
* `Skips`: a run that goes like another one, but does not ask for one variable.
* **`evaluate_set`**: a tree has the same outcome with the value bound and with it substituted.
-/

namespace Formula

namespace Expr

mutual

/-- The tree with `value` in the places of the variable `name`. -/
def substitute (name : String) (value : Float) : Expr → Expr
  | number x => number x
  | var other => if other = name then number value else var other
  | neg operand => neg (operand.substitute name value)
  | binary operator left right =>
    binary operator (left.substitute name value) (right.substitute name value)
  | call function arguments => call function (substituteAll name value arguments)

/-- Each of the trees with the value in place of the variable. -/
def substituteAll (name : String) (value : Float) : List Expr → List Expr
  | [] => []
  | e :: es => e.substitute name value :: substituteAll name value es

end

end Expr

variable {m : Type → Type} [Monad m]

/-- The context with a value given to one variable. -/
def Context.assign (context : Context m) (name : String) (value : Float) : Context m where
  resolve other := if other = name then pure value else context.resolve other
  call := context.call

theorem Context.resolve_assign (context : Context m) (name : String) (value : Float)
    (other : String) :
    (context.assign name value).resolve other =
      if other = name then pure value else context.resolve other := rfl

namespace Expr

variable (context : Context m) (name : String) (value : Float)

mutual

theorem postOrder_substitute : ∀ e : Expr,
    (e.substitute name value).postOrder context = e.postOrder (context.assign name value)
  | number x => by rw [substitute, postOrder, postOrder]
  | var other => by
    rw [substitute, postOrder, Context.resolve_assign]
    by_cases h : other = name
    · rw [if_pos h, if_pos h, postOrder]
    · rw [if_neg h, if_neg h, postOrder]
  | neg operand => by rw [substitute, postOrder, postOrder, postOrder_substitute operand]
  | binary operator left right => by
    rw [substitute, postOrder, postOrder, postOrder_substitute left, postOrder_substitute right]
  | call function arguments => by
    rw [substitute, postOrder, postOrder, postOrderAll_substituteAll arguments]
    rfl

theorem postOrderAll_substituteAll : ∀ es : List Expr,
    postOrderAll context (substituteAll name value es) =
      postOrderAll (context.assign name value) es
  | [] => by rw [substituteAll, postOrderAll, postOrderAll]
  | e :: es => by
    rw [substituteAll, postOrderAll, postOrderAll, postOrder_substitute e,
      postOrderAll_substituteAll es]

end

theorem evaluate_substitute [LawfulMonad m] (e : Expr) :
    (e.substitute name value).evaluate context = e.evaluate (context.assign name value) := by
  rw [evaluate_eq_postOrder, evaluate_eq_postOrder, postOrder_substitute]

end Expr

theorem Bindings.context_set (b : Bindings) (name : String) (value : Float) :
    (b.set name value).2.context = b.context.assign name value := by
  have hresolve : (b.set name value).2.resolve = (b.context.assign name value).resolve := by
    funext other
    show _ = if other = name then _ else b.resolve other
    rw [resolve, value?_set]
    by_cases h : other = name
    · rw [if_pos h, if_pos h.symm]
      rfl
    · rw [if_neg h, if_neg (Ne.symm h), resolve]
  rw [context, hresolve]
  rfl

/-! ## What is asked -/

section Skip

variable {ε α β : Type} {name : String}

variable (name) in
/-- The requests but those for a variable. -/
def others (requests : List Request) : List Request :=
  requests.filter fun request => request.mention != .var name

theorem others_concat (made : List Request) (request : Request) :
    others name (made ++ [request]) =
      if request.mention = .var name then others name made
      else others name made ++ [request] := by
  rw [others, List.filter_append]
  by_cases h : request.mention = .var name
  · rw [if_pos h, List.filter_cons_of_neg (by simpa using h), List.filter_nil, List.append_nil,
      others]
  · rw [if_neg h, List.filter_cons_of_pos (by simpa using h), List.filter_nil, others]

variable (name) in
/-- The second run has the outcome of the first one, and asks for the others only. -/
def Skips (r r' : Recorded ε α) : Prop :=
  ∀ made, r'.outcome (others name made) = ((r.outcome made).1, others name (r.outcome made).2)

theorem skips_pure (a : α) : Skips name (pure a : Recorded ε α) (pure a) := fun _ => rfl

theorem Skips.bind {r r' : Recorded ε α} {k k' : α → Recorded ε β} (h : Skips name r r')
    (hk : ∀ a, Skips name (k a) (k' a)) : Skips name (r >>= k) (r' >>= k') := by
  intro made
  rw [Recorded.outcome_bind, Recorded.outcome_bind, h made]
  cases r.outcome made with
  | mk outcome middle =>
    cases outcome with
    | error e => rfl
    | ok a => exact hk a middle

variable (name) in
/-- `Skips` as a tracking, whatever is mentioned. -/
def skipping : Tracking (Recorded ε) (Recorded ε) where
  Holds _ := Skips name
  pure := skips_pure
  bind := Skips.bind

theorem skips_reply (context : Context (Except ε)) (value : Float) (request : Request) :
    Skips name (Recorded.ask (fun _ => (context.assign name value).reply) request)
      (((Context.recording fun _ => context.reply).assign name value).reply request) := by
  intro made
  show _ = ((context.assign name value).reply request, others name (made ++ [request]))
  rw [others_concat]
  cases request with
  | resolve other =>
    by_cases h : other = name
    · subst h
      simp only [Context.reply, Context.assign, Request.mention, if_pos]
      rfl
    · have hne : (Request.resolve other).mention ≠ .var name := fun hm => h (Mention.var.inj hm)
      simp only [Context.reply, Context.assign, if_neg h, if_neg hne]
      rfl
  | call function values =>
    have hne : (Request.call function values).mention ≠ .var name := nofun
    rw [if_neg hne]
    rfl

theorem asked_substitute (context : Context (Except ε)) (value : Float) (e : Expr) :
    ((e.substitute name value).asked fun _ => context.reply) =
      others name (e.asked fun _ => (context.assign name value).reply) := by
  have hskips : Skips name
      (e.evaluate (.recording fun _ => (context.assign name value).reply))
      ((e.substitute name value).evaluate (.recording fun _ => context.reply)) := by
    rw [Expr.evaluate_substitute, Expr.evaluate_eq_postOrder, Expr.evaluate_eq_postOrder]
    refine e.tracking_postOrder (skipping name) fun request => ?_
    rw [Context.reply_recording]
    exact skips_reply context value request
  exact congrArg Prod.snd (hskips [])

end Skip

/-- **Giving a variable a value is substituting it.** Against bindings in which the value is set, a
tree has the outcome that it has, against the bindings as they were, with the value in the places of
the variable; and the second one asks the same but for the variable. -/
theorem evaluate_set (e : Expr) (b : Bindings) (name : String) (value : Float) :
    e.evaluate (b.set name value).2.context = (e.substitute name value).evaluate b.context ∧
      ((e.substitute name value).asked fun _ => b.context.reply) =
        (e.asked fun _ => (b.set name value).2.context.reply).filter
          fun request => request.mention != .var name := by
  rw [b.context_set]
  exact ⟨(e.evaluate_substitute b.context name value).symm, asked_substitute b.context value e⟩

/-- A call of the name and other variables stay. -/
example : (Expr.call "x" [.neg (.var "x"), .var "y"]).substitute "x" 2 =
    .call "x" [.neg (.number 2), .var "y"] := rfl

end Formula
