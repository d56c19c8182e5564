import Std.Data.HashMap
import Std.Data.TreeMap
import Formula.Bindings
import Formula.Proofs.Lookup
import Formula.Proofs.Mentions

/-!
# Which name is reported

The names of a tree alone decide whether it has a value, where each function has a result for all
arguments. The error is that of the first name that is not known.

* `Mention.isKnown`, `Mention.unknown`: a name that is known, and the error for one that is not.
* `Reports`: a computation that fails at the first of its mentions that is not known.
* `Surfaces`: the outcome of a tree, predicted from its mentions.
* **`evaluate_surfaces`**: what maps of variables and bindings report.
-/

namespace Formula

namespace Mention

/-- There is a value for the variable, or the function is there. -/
def isKnown (value? : String → Option Float) (hasFunction : String → Bool) : Mention → Bool
  | var name => (value? name).isSome
  | call function => hasFunction function

/-- The error for a mention that is not known. -/
def unknown : Mention → EvalError
  | var name => .unknownVariable name
  | call function => .unknownFunction function

end Mention

/-! ## The first name that is not known -/

section Reporting

variable {α β : Type} {knows : Mention → Bool} {first second : List Mention}

variable (knows) in
/-- There is a result if all mentions are known, else the error for the first one that is not. -/
def Reports (mentions : List Mention) (r : Except EvalError α) : Prop :=
  match mentions.find? (!knows ·) with
  | none => ∃ a, r = .ok a
  | some mention => r = .error mention.unknown

theorem reports_pure (a : α) : Reports knows [] (pure a : Except EvalError α) := ⟨a, rfl⟩

theorem Reports.bind {r : Except EvalError α} {k : α → Except EvalError β}
    (h : Reports knows first r) (hk : ∀ a, Reports knows second (k a)) :
    Reports knows (first ++ second) (r >>= k) := by
  unfold Reports at h ⊢
  rw [List.find?_append]
  cases hfirst : first.find? (!knows ·) with
  | some mention =>
    rw [hfirst] at h
    rw [h]
    rfl
  | none =>
    rw [hfirst] at h
    obtain ⟨a, rfl⟩ := h
    exact hk a

theorem reports_of_known {mention : Mention} {r : Except EvalError α} (h : knows mention)
    (hr : ∃ a, r = .ok a) : Reports knows [mention] r := by
  rw [Reports, List.find?_cons_of_neg (by simpa using h)]
  exact hr

theorem reports_of_unknown {mention : Mention} {r : Except EvalError α} (h : knows mention = false)
    (hr : r = .error mention.unknown) : Reports knows [mention] r := by
  rw [Reports, List.find?_cons_of_pos (by simpa using h)]
  exact hr

variable (knows) in
/-- `Reports` as a tracking of the first run. The second one does not matter. -/
def reporting : Tracking (Except EvalError) (Except EvalError) where
  Holds mentions r _ := Reports knows mentions r
  pure := reports_pure
  bind := Reports.bind

variable (knows) in
/-- The outcome of a tree: it has a value exactly if all its mentions are known, and the error names
the first one that is not. -/
structure Surfaces (e : Expr) (r : Except EvalError Float) : Prop where
  ok_iff : (∃ x, r = .ok x) ↔ ∀ mention ∈ e.mentions, knows mention
  error_of_first (before : List Mention) (mention : Mention) (after : List Mention) :
    e.mentions = before ++ mention :: after → (∀ earlier ∈ before, knows earlier) →
      ¬ knows mention → r = .error mention.unknown

theorem Reports.surfaces {e : Expr} {r : Except EvalError Float} (h : Reports knows e.mentions r) :
    Surfaces knows e r := by
  unfold Reports at h
  cases hfind : e.mentions.find? (!knows ·) with
  | none =>
    rw [hfind] at h
    have hall : ∀ mention ∈ e.mentions, knows mention := by
      simpa [List.find?_eq_none] using hfind
    refine ⟨iff_of_true h hall, fun before mention after he _ hmention => ?_⟩
    exact absurd (hall mention (by rw [he]; simp)) hmention
  | some found =>
    rw [hfind] at h
    refine ⟨iff_of_false ?_ fun hall => ?_, fun before mention after he hbefore hmention => ?_⟩
    · rintro ⟨x, hx⟩
      cases h.symm.trans hx
    · have hfound := List.find?_some hfind
      rw [hall found (List.mem_of_find?_eq_some hfind)] at hfound
      cases hfound
    · have hmention : e.mentions.find? (!knows ·) = some mention :=
        List.find?_eq_some_iff_append.2
          ⟨by simpa using hmention, before, after, he, by simpa using hbefore⟩
      cases hfind.symm.trans hmention
      exact h

theorem surfaces_evaluate {context : Context (Except EvalError)}
    (h : ∀ request : Request, Reports knows [request.mention] (context.reply request)) (e : Expr) :
    Surfaces knows e (e.evaluate context) := by
  rw [Expr.evaluate_eq_postOrder]
  have hreports : (reporting knows).Holds e.mentions (e.postOrder context) (e.postOrder context) :=
    e.tracking_postOrder (reporting knows) h
  exact Reports.surfaces hreports

end Reporting

/-! ## Maps and bindings -/

theorem surfaces_ofVariables (value? : String → Option Float) (e : Expr) :
    Surfaces (Mention.isKnown value? fun _ => false) e (e.evaluate (.ofVariables value?)) := by
  refine surfaces_evaluate (fun request => ?_) e
  cases request with
  | resolve name =>
    cases h : value? name with
    | some value =>
      have hresolve : (Context.ofVariables value?).resolve name = .ok value := by
        simp only [Context.ofVariables, h]
      exact reports_of_known (by simp [Mention.isKnown, Request.mention, h]) ⟨value, hresolve⟩
    | none =>
      have hresolve : (Context.ofVariables value?).resolve name =
          .error (.unknownVariable name) := by
        simp only [Context.ofVariables, h]
      exact reports_of_unknown (by simp [Mention.isKnown, Request.mention, h]) hresolve
  | call function values => exact reports_of_unknown rfl rfl

namespace Bindings

/-- Each function has a result for all arguments. -/
def NeverFails (b : Bindings) : Prop :=
  ∀ (name : String) (function : Function), b.functions[name]? = some function →
    ∀ args, ∃ x, function args = .ok x

theorem surfaces (b : Bindings) (hb : b.NeverFails) (e : Expr) :
    Surfaces (Mention.isKnown b.value? b.hasFunction) e (e.evaluate b.context) := by
  refine surfaces_evaluate (fun request => ?_) e
  cases request with
  | resolve name =>
    show Reports _ [.var name] (b.resolve name)
    unfold resolve
    cases h : b.value? name with
    | some value => exact reports_of_known (by simp [Mention.isKnown, h]) ⟨value, rfl⟩
    | none => exact reports_of_unknown (by simp [Mention.isKnown, h]) rfl
  | call name args =>
    show Reports _ [.call name] (b.call name args)
    unfold call
    cases h : b.functions[name]? with
    | some function =>
      have hknown : (Mention.call name).isKnown b.value? b.hasFunction := by
        simp [Mention.isKnown, hasFunction_eq, h]
      exact reports_of_known hknown (hb name function h args)
    | none => exact reports_of_unknown (by simp [Mention.isKnown, hasFunction_eq, h]) rfl

theorem context_of_no_function {b : Bindings} (h : ∀ name, b.hasFunction name = false) :
    b.context = .ofVariables b.value? := by
  have hcall : b.call = fun name _ => .error (.unknownFunction name) := by
    funext name args
    have hnone : b.functions[name]? = none := by
      have hsome := h name
      rw [hasFunction_eq, Option.isSome_eq_false_iff] at hsome
      exact Option.isNone_iff_eq_none.1 hsome
    rw [call, hnone]
  rw [context, hcall]
  rfl

end Bindings

/-- **The names of a tree decide which error there is.** Against a map of variables, or bindings
whose functions never fail, a tree has a value exactly if each variable is bound and each function
is there. Otherwise the error is that of the first name in post-order for which this is not so. Maps
and bindings without functions that hold the same values give every tree the same outcome. -/
theorem evaluate_surfaces (e : Expr) :
    (∀ values : Std.HashMap String Float,
      Surfaces (Mention.isKnown (values[·]?) fun _ => false) e
        (e.evaluate (.ofVariables (values[·]?)))) ∧
    (∀ values : Std.TreeMap String Float,
      Surfaces (Mention.isKnown (values[·]?) fun _ => false) e
        (e.evaluate (.ofVariables (values[·]?)))) ∧
    (∀ b : Bindings, b.NeverFails →
      Surfaces (Mention.isKnown b.value? b.hasFunction) e (e.evaluate b.context)) ∧
    ∀ (hashed : Std.HashMap String Float) (sorted : Std.TreeMap String Float) (b : Bindings),
      (∀ name, hashed[name]? = b.value? name) → (∀ name, sorted[name]? = b.value? name) →
      (∀ name, b.hasFunction name = false) →
      e.evaluate (.ofVariables (hashed[·]?)) = e.evaluate b.context ∧
        e.evaluate (.ofVariables (sorted[·]?)) = e.evaluate b.context := by
  refine ⟨fun values => surfaces_ofVariables _ e, fun values => surfaces_ofVariables _ e,
    fun b hb => b.surfaces hb e, fun hashed sorted b hhashed hsorted hb => ?_⟩
  rw [Bindings.context_of_no_function hb, funext hhashed, funext hsorted]
  exact ⟨rfl, rfl⟩

/-- The tree `one(x) + y * f(z)`, where `x` has a value. With a function `one` the variable `y` is
reported, and without functions it is `one`, also by maps. -/
theorem evaluate_surfaces_product :
    let e : Expr := .binary .add (.call "one" [.var "x"])
      (.binary .mul (.var "y") (.call "f" [.var "z"]))
    let b := (Bindings.empty.set "x" 2).2
    let withOne := b.define "one" fun _ => .ok 1
    let hashed : Std.HashMap String Float := (∅ : Std.HashMap String Float).insert "x" 2
    let sorted : Std.TreeMap String Float := (∅ : Std.TreeMap String Float).insert "x" 2
    (withOne.NeverFails ∧ e.evaluate withOne.context = .error (.unknownVariable "y")) ∧
    (∀ name, hashed[name]? = b.value? name) ∧ (∀ name, sorted[name]? = b.value? name) ∧
    (∀ name, b.hasFunction name = false) ∧
    e.evaluate (.ofVariables (hashed[·]?)) = .error (.unknownFunction "one") ∧
    e.evaluate (.ofVariables (sorted[·]?)) = .error (.unknownFunction "one") := by
  intro e b withOne hashed sorted
  have hvalue : ∀ name, b.value? name = if "x" = name then some 2 else none := fun name => by
    rw [Bindings.value?_set, Bindings.value?_empty]
  have hknows : ∀ name, withOne.value? name = if "x" = name then some 2 else none := hvalue
  have hone : withOne.hasFunction "one" := by
    rw [Bindings.hasFunction_eq, Bindings.functions_define, if_pos rfl, Option.isSome_some]
  have hnever : withOne.NeverFails := by
    intro name function hfunction args
    rw [Bindings.functions_define] at hfunction
    by_cases h : "one" = name
    · rw [if_pos h] at hfunction
      cases hfunction
      exact ⟨1, rfl⟩
    · rw [if_neg h] at hfunction
      cases hfunction.symm.trans Std.ExtTreeMap.getElem?_empty
  have hhashed : ∀ name, hashed[name]? = b.value? name := fun name => by
    rw [hvalue, Std.HashMap.getElem?_insert]
    simp
  have hsorted : ∀ name, sorted[name]? = b.value? name := fun name => by
    rw [hvalue, Std.TreeMap.getElem?_insert]
    simp
  have hnone : ∀ name, b.hasFunction name = false := fun name => by
    rw [Bindings.hasFunction_eq]
    exact Option.isSome_eq_false_iff.2 (Option.isNone_iff_eq_none.2 Std.ExtTreeMap.getElem?_empty)
  obtain ⟨-, hmap, hbindings, hsame⟩ := evaluate_surfaces e
  have hy := (hbindings withOne hnever).error_of_first [.var "x", .call "one"] (.var "y")
    [.var "z", .call "f"] rfl
    (by simp [Mention.isKnown, hknows, hone]) (by simp [Mention.isKnown, hknows])
  have hf := (hmap sorted).error_of_first [.var "x"] (.call "one")
    [.var "y", .var "z", .call "f"] rfl
    (by simp [Mention.isKnown, hsorted, hvalue]) Bool.false_ne_true
  obtain ⟨hsame₁, hsame₂⟩ := hsame hashed sorted b hhashed hsorted hnone
  exact ⟨⟨hnever, hy⟩, hhashed, hsorted, hnone, hsame₁.trans (hsame₂.symm.trans hf), hf⟩

end Formula
