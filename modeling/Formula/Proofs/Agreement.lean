import Formula.Proofs.Lookup
import Formula.Proofs.Mentions

/-!
# Evaluation sees only what it asks for

* `Expr.asked`: what the evaluation of a tree asks, in order.
* `Echoes`: a run that goes like another one as long as it gets the same answers.
* **`Expr.mentions_of_asked`**: the mentions of a tree are asked in their order, up to a refusal.
* **`evaluate_of_same_answers`**: a context that gives the same answers to what is asked cannot be
  told from the first one; so a writing of bindings is not seen by a tree without its name.
-/

namespace Formula

variable {ε α β : Type}

/-- What the evaluation of a tree asks, in order. -/
def Expr.asked (e : Expr) (answer : List Request → Request → Except ε Float) : List Request :=
  ((e.evaluate (.recording answer)).outcome []).2

/-! ## Two runs with the same answers -/

section Echo

/-- Both give the same answers to the requests of `all` that come behind `made`. -/
def Alike (answer answer' : List Request → Request → Except ε Float)
    (made all : List Request) : Prop :=
  ∀ before request, made <+: before → before ++ [request] <+: all →
    answer' before request = answer before request

variable {answer answer' : List Request → Request → Except ε Float}

theorem Alike.first {made middle all : List Request} (h : Alike answer answer' made all)
    (hm : middle <+: all) : Alike answer answer' made middle :=
  fun before request hmade hbefore => h before request hmade (hbefore.trans hm)

theorem Alike.second {made middle all : List Request} (h : Alike answer answer' made all)
    (hm : made <+: middle) : Alike answer answer' middle all :=
  fun before request hmiddle => h before request (hm.trans hmiddle)

variable (answer answer') in
/-- The first run adds to the requests, and if all that it adds is answered alike, the second run is
the same. -/
def Echoes (r r' : Recorded ε α) : Prop :=
  ∀ made, made <+: (r.outcome made).2 ∧
    (Alike answer answer' made (r.outcome made).2 → r'.outcome made = r.outcome made)

theorem echoes_pure (a : α) : Echoes answer answer' (pure a) (pure a) :=
  fun made => ⟨List.prefix_refl made, fun _ => rfl⟩

theorem Echoes.bind {r r' : Recorded ε α} {k k' : α → Recorded ε β}
    (h : Echoes answer answer' r r') (hk : ∀ a, Echoes answer answer' (k a) (k' a)) :
    Echoes answer answer' (r >>= k) (r' >>= k') := by
  intro made
  obtain ⟨hmade, hsame⟩ := h made
  rw [Recorded.outcome_bind, Recorded.outcome_bind]
  cases hr : r.outcome made with
  | mk outcome middle =>
    rw [hr] at hmade hsame
    cases outcome with
    | error e =>
      refine ⟨hmade, fun halike => ?_⟩
      rw [hsame halike]
    | ok a =>
      obtain ⟨hmiddle, hrest⟩ := hk a middle
      refine ⟨hmade.trans hmiddle, fun halike => ?_⟩
      rw [hsame (halike.first hmiddle)]
      exact hrest (halike.second hmade)

theorem echoes_ask (request : Request) :
    Echoes answer answer' (Recorded.ask answer request) (Recorded.ask answer' request) := by
  intro made
  refine ⟨List.prefix_append made [request], fun halike => ?_⟩
  show (answer' made request, made ++ [request]) = (answer made request, made ++ [request])
  rw [halike made request (List.prefix_refl made) (List.prefix_refl _)]

variable (answer answer') in
/-- Runs with the same answers, request by request. -/
def echoing : Tracking (Recorded ε) (Recorded ε) where
  Holds _ := Echoes answer answer'
  pure := echoes_pure
  bind := Echoes.bind

theorem evaluate_echoes (e : Expr) :
    Echoes answer answer' (e.evaluate (.recording answer)) (e.evaluate (.recording answer')) := by
  rw [Expr.evaluate_eq_postOrder, Expr.evaluate_eq_postOrder]
  refine e.tracking_postOrder (echoing answer answer') fun request => ?_
  rw [Context.reply_recording, Context.reply_recording]
  exact echoes_ask request

end Echo

/-! ## Contexts without memory -/

section Plain

/-- A recorded run without the record. -/
def unrecorded : Tracking (Recorded ε) (Except ε) where
  Holds _ r x := ∀ made, (r.outcome made).1 = x
  pure _ _ := rfl
  bind {_ _ _ _ r r' k k'} h hk made := by
    rw [Recorded.outcome_bind]
    have hr := h made
    generalize r.outcome made = after at hr
    obtain ⟨outcome, middle⟩ := after
    subst hr
    cases outcome with
    | error e => rfl
    | ok a => exact hk a middle

/-- The record of a run leaves its outcome as it is. -/
theorem outcome_reply (context : Context (Except ε)) (e : Expr) (made : List Request) :
    ((e.evaluate (.recording fun _ => context.reply)).outcome made).1 = e.evaluate context := by
  rw [Expr.evaluate_eq_postOrder, Expr.evaluate_eq_postOrder]
  refine e.tracking_postOrder unrecorded (fun request made => ?_) made
  rw [Context.reply_recording]
  rfl

theorem evaluate_of_same_replies {context context' : Context (Except ε)} {e : Expr}
    (h : ∀ request ∈ e.asked fun _ => context.reply,
      context'.reply request = context.reply request) :
    e.evaluate context' = e.evaluate context ∧
      (e.asked fun _ => context'.reply) = e.asked fun _ => context.reply := by
  have hsame := ((evaluate_echoes e) []).2 fun before request _ hbefore =>
    h request (hbefore.subset (List.mem_concat_self ..))
  refine ⟨?_, congrArg Prod.snd hsame⟩
  rw [← outcome_reply context' e [], ← outcome_reply context e []]
  exact congrArg Prod.fst hsame

end Plain

/-! ## The order of the requests -/

section Order

/-- What is asked are the mentions in their order, and all of them if there is a value. -/
def Asks (mentions : List Mention) (r : Recorded ε α) : Prop :=
  ∀ made, ∃ asked, (r.outcome made).2 = made ++ asked ∧ asked.map Request.mention <+: mentions ∧
    ∀ a, (r.outcome made).1 = .ok a → asked.map Request.mention = mentions

theorem asks_pure (a : α) : Asks [] (pure a : Recorded ε α) :=
  fun made => ⟨[], (List.append_nil made).symm, List.prefix_refl [], fun _ _ => rfl⟩

theorem Asks.bind {first second : List Mention} {r : Recorded ε α} {k : α → Recorded ε β}
    (h : Asks first r) (hk : ∀ a, Asks second (k a)) : Asks (first ++ second) (r >>= k) := by
  intro made
  obtain ⟨asked, hmade, hprefix, hall⟩ := h made
  rw [Recorded.outcome_bind]
  cases hr : r.outcome made with
  | mk outcome middle =>
    rw [hr] at hmade hall
    cases outcome with
    | error e =>
      refine ⟨asked, hmade, hprefix.trans (List.prefix_append first second), fun a ha => ?_⟩
      cases ha
    | ok a =>
      obtain ⟨more, hmiddle, hmore, hend⟩ := hk a middle
      obtain rfl : middle = made ++ asked := hmade
      refine ⟨asked ++ more, by rw [← List.append_assoc]; exact hmiddle, ?_, fun b hb => ?_⟩
      · rw [List.map_append, hall a rfl]
        exact (List.prefix_append_right_inj first).2 hmore
      · rw [List.map_append, hall a rfl, hend b hb]

theorem asks_ask (answer : List Request → Request → Except ε Float) (request : Request) :
    Asks [request.mention] (Recorded.ask answer request) :=
  fun _ => ⟨[request], rfl, List.prefix_refl _, fun _ _ => rfl⟩

/-- `Asks` as a tracking of the second run. The first one does not matter. -/
def asking : Tracking (Recorded ε) (Recorded ε) where
  Holds mentions r _ := Asks mentions r
  pure := asks_pure
  bind := Asks.bind

theorem Expr.evaluate_asks (e : Expr) (answer : List Request → Request → Except ε Float) :
    Asks e.mentions (e.evaluate (.recording answer)) := by
  rw [evaluate_eq_postOrder]
  show asking.Holds e.mentions _ (e.postOrder (.recording answer))
  refine e.tracking_postOrder asking fun request => ?_
  rw [Context.reply_recording]
  exact asks_ask answer request

/-- **The mentions of a tree are asked in their order**, up to a refusal. -/
theorem Expr.mentions_of_asked (e : Expr) (answer : List Request → Request → Except ε Float) :
    (e.asked answer).map Request.mention <+: e.mentions := by
  obtain ⟨all, hall, hprefix, -⟩ := e.evaluate_asks answer []
  rw [asked, hall]
  exact hprefix

end Order

/-! ## Bindings -/

theorem evaluate_of_mentions {context context' : Context (Except ε)} {e : Expr}
    (h : ∀ request : Request, request.mention ∈ e.mentions →
      context'.reply request = context.reply request) :
    e.evaluate context' = e.evaluate context := by
  refine (evaluate_of_same_replies fun request hasked => h request ?_).1
  exact (e.mentions_of_asked _).subset (List.mem_map_of_mem hasked)

namespace Bindings

variable {b b' : Bindings} {name : String}

theorem reply_resolve_congr (h : b'.value? name = b.value? name) :
    b'.context.reply (.resolve name) = b.context.reply (.resolve name) := by
  show b'.resolve name = b.resolve name
  rw [resolve, resolve, h]

theorem reply_call_congr (h : b'.functions[name]? = b.functions[name]?) (values : List Float) :
    b'.context.reply (.call name values) = b.context.reply (.call name values) := by
  show b'.call name values = b.call name values
  rw [call, call, h]

theorem evaluate_of_var_not_mem {e : Expr} (hvar : .var name ∉ e.mentions)
    (hvalues : ∀ other, name ≠ other → b'.value? other = b.value? other)
    (hfunctions : b'.functions = b.functions) :
    e.evaluate b'.context = e.evaluate b.context := by
  refine evaluate_of_mentions fun request hmentioned => ?_
  cases request with
  | resolve other =>
    refine reply_resolve_congr (hvalues other fun h => hvar ?_)
    rw [h]
    exact hmentioned
  | call function values => exact reply_call_congr (by rw [hfunctions]) values

theorem evaluate_define_of_not_mem {e : Expr} (hcall : .call name ∉ e.mentions)
    (function : Function) :
    e.evaluate (b.define name function).context = e.evaluate b.context := by
  refine evaluate_of_mentions fun request hmentioned => ?_
  cases request with
  | resolve other => exact reply_resolve_congr rfl
  | call other values =>
    have hne : name ≠ other := by
      rintro rfl
      exact hcall hmentioned
    exact reply_call_congr (by rw [functions_define, if_neg hne]) values

end Bindings

/-- **Evaluation sees only what it asks for.** A context that answers what is asked as the first one
does, is asked the same and gives the same outcome, whether its answers depend on the requests
before or not. So a tree does not see what is written to bindings under a name that it does not
mention in this use. -/
theorem evaluate_of_same_answers (e : Expr) :
    (∀ {ε : Type} (answer answer' : List Request → Request → Except ε Float),
      (∀ before request, before ++ [request] <+: e.asked answer →
        answer' before request = answer before request) →
      (e.evaluate (.recording answer')).outcome [] =
        (e.evaluate (.recording answer)).outcome []) ∧
    (∀ {ε : Type} (context context' : Context (Except ε)),
      (∀ request ∈ e.asked fun _ => context.reply,
        context'.reply request = context.reply request) →
      e.evaluate context' = e.evaluate context ∧
        (e.asked fun _ => context'.reply) = e.asked fun _ => context.reply) ∧
    ∀ (b : Bindings) (name : String),
      (.var name ∉ e.mentions → ∀ value,
        e.evaluate (b.set name value).2.context = e.evaluate b.context ∧
          e.evaluate (b.erase name).2.context = e.evaluate b.context) ∧
      (.call name ∉ e.mentions → ∀ function,
        e.evaluate (b.define name function).context = e.evaluate b.context) := by
  refine ⟨fun answer answer' h => ?_, fun _ _ => evaluate_of_same_replies, fun b name =>
    ⟨fun hvar value => ⟨?_, ?_⟩, Bindings.evaluate_define_of_not_mem⟩⟩
  · exact (evaluate_echoes e []).2 fun before request _ => h before request
  · refine Bindings.evaluate_of_var_not_mem hvar (fun other hne => ?_) rfl
    rw [Bindings.value?_set, if_neg hne]
  · refine Bindings.evaluate_of_var_not_mem hvar (fun other hne => ?_) rfl
    rw [Bindings.value?_erase, if_neg hne]

/-- The tree `a + f(b)`, where `a` is unknown, against contexts that differ in all the rest; and
bindings with a variable `f` and with a function `a`. -/
theorem evaluate_of_same_answers_refused :
    let e : Expr := .binary .add (.var "a") (.call "f" [.var "b"])
    let answer (y : Float) (_ : List Request) : Request → Except EvalError Float
      | .resolve "a" => .error (.unknownVariable "a")
      | _ => .ok y
    (∀ before request, before ++ [request] <+: e.asked (answer 1) →
      answer 2 before request = answer 1 before request) ∧
    (e.evaluate (.recording (answer 2))).outcome [] =
      (e.evaluate (.recording (answer 1))).outcome [] ∧
    (.var "f" ∉ e.mentions ∧ e.evaluate (Bindings.builtin.set "f" 3).2.context =
      e.evaluate Bindings.builtin.context) ∧
    .call "a" ∉ e.mentions ∧ ∀ function, e.evaluate (Bindings.builtin.define "a" function).context =
      e.evaluate Bindings.builtin.context := by
  intro e answer
  have hanswer : ∀ before request, before ++ [request] <+: e.asked (answer 1) →
      answer 2 before request = answer 1 before request := by
    intro before request hbefore
    have hasked : request ∈ e.asked (answer 1) := hbefore.subset (List.mem_concat_self ..)
    obtain rfl : request = .resolve "a" := List.mem_singleton.1 hasked
    rfl
  have hvar : .var "f" ∉ e.mentions := by decide
  have hcall : .call "a" ∉ e.mentions := by decide
  obtain ⟨hsame, -, hbindings⟩ := evaluate_of_same_answers e
  exact ⟨hanswer, hsame (answer 1) (answer 2) hanswer,
    ⟨hvar, ((hbindings Bindings.builtin "f").1 hvar 3).1⟩,
    hcall, (hbindings Bindings.builtin "a").2 hcall⟩

end Formula
