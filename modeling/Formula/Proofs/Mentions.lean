import Formula.Proofs.PostOrder

/-!
# The names in a tree

Of what a tree will ask its context, the arguments of the calls are known only when it is evaluated,
but the names and their order stand in the tree.

* `Mention`: a name as it is used in a tree, for a variable or for a function.
* `Expr.mentions`: the mentions of a tree in post-order, a call behind its arguments.
* `Tracking`: a relation between the computations of two monads that grows along with what they
  mention, and that is kept when one computation follows another.
* **`Expr.tracking_postOrder`**: two contexts that are related at each request are related at every
  tree.
-/

namespace Formula

/-- A name as it is used in a tree. -/
inductive Mention
  | var (name : String)
  | call (function : String)
deriving DecidableEq, Repr

/-- The name that a request is about. -/
def Request.mention : Request → Mention
  | resolve name => .var name
  | call function _ => .call function

/-- What a context answers to a request. -/
def Context.reply {m : Type → Type} (context : Context m) : Request → m Float
  | .resolve name => context.resolve name
  | .call function values => context.call function values

theorem Context.reply_recording {ε : Type} (answer : List Request → Request → Except ε Float)
    (request : Request) :
    (Context.recording answer).reply request = Recorded.ask answer request := by
  cases request with
  | resolve name => rfl
  | call function values => rfl

namespace Expr

mutual

/-- The names in a tree, in post-order. -/
def mentions : Expr → List Mention
  | number _ => []
  | var name => [.var name]
  | neg operand => operand.mentions
  | binary _ left right => left.mentions ++ right.mentions
  | call function arguments => allMentions arguments ++ [.call function]

/-- The names in a list of trees. -/
def allMentions : List Expr → List Mention
  | [] => []
  | e :: es => e.mentions ++ allMentions es

end

end Expr

/-! ## Relations that follow an evaluation -/

/-- A relation between computations, with what they mention. It holds of values with nothing
mentioned, and of two computations one after the other when it holds of each. -/
structure Tracking (m m' : Type → Type) [Monad m] [Monad m'] where
  Holds {α : Type} : List Mention → m α → m' α → Prop
  pure {α : Type} (a : α) : Holds [] (Pure.pure a) (Pure.pure a)
  bind {α β : Type} {first second : List Mention} {r : m α} {r' : m' α} {k : α → m β}
    {k' : α → m' β} : Holds first r r' → (∀ a, Holds second (k a) (k' a)) →
      Holds (first ++ second) (r >>= k) (r' >>= k')

namespace Expr

variable {m m' : Type → Type} [Monad m] [Monad m'] (T : Tracking m m') {context : Context m}
  {context' : Context m'}

mutual

/-- **What holds of each request holds of every evaluation.** -/
theorem tracking_postOrder
    (h : ∀ request, T.Holds [request.mention] (context.reply request) (context'.reply request)) :
    ∀ e : Expr, T.Holds e.mentions (e.postOrder context) (e.postOrder context')
  | number value => by
    rw [mentions, postOrder, postOrder]
    exact T.pure value
  | var name => by
    rw [mentions, postOrder, postOrder]
    exact h (.resolve name)
  | neg operand => by
    rw [mentions, postOrder, postOrder, ← List.append_nil operand.mentions]
    exact T.bind (tracking_postOrder h operand) fun x => T.pure (-x)
  | binary operator left right => by
    rw [mentions, postOrder, postOrder, ← List.append_nil right.mentions]
    refine T.bind (tracking_postOrder h left) fun x => ?_
    exact T.bind (tracking_postOrder h right) fun y => T.pure (operator.apply x y)
  | call function arguments => by
    rw [mentions, postOrder, postOrder]
    exact T.bind (tracking_postOrderAll h arguments) fun values => h (.call function values)

theorem tracking_postOrderAll
    (h : ∀ request, T.Holds [request.mention] (context.reply request) (context'.reply request)) :
    ∀ es : List Expr, T.Holds (allMentions es) (postOrderAll context es) (postOrderAll context' es)
  | [] => by
    rw [allMentions, postOrderAll, postOrderAll]
    exact T.pure []
  | e :: es => by
    rw [allMentions, postOrderAll, postOrderAll, ← List.append_nil (allMentions es)]
    refine T.bind (tracking_postOrder h e) fun x => ?_
    exact T.bind (tracking_postOrderAll h es) fun xs => T.pure (x :: xs)

end

end Expr

end Formula
