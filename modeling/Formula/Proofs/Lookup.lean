import Mathlib.Logic.Basic
import Formula.Report

/-!
# What bindings answer

A look-up answers by the last writing of the name, and writing variables leaves the functions alone.

* `Bindings.value?_setAll`: variables after several are written.
* `Bindings.functions_install`, `Bindings.value?_install`: the builtins, written over what there
  was.
* **`Options.value?_bindings`**, **`Options.call_bindings`**: what the formulas of a run are told.
-/

namespace Formula

namespace Bindings

variable (b : Bindings) (name : String)

/-! ## Variables -/

theorem value?_empty : empty.value? name = none := Std.ExtTreeMap.getElem?_empty

theorem value?_set (written : String) (value : Float) :
    (b.set written value).2.value? name = if written = name then some value else b.value? name := by
  show (b.values.insert written value)[name]? = _
  rw [Std.ExtTreeMap.getElem?_insert]
  exact if_congr Std.LawfulEqCmp.compare_eq_iff_eq rfl rfl

theorem value?_erase (erased : String) :
    (b.erase erased).2.value? name = if erased = name then none else b.value? name := by
  show (b.values.erase erased)[name]? = _
  rw [Std.ExtTreeMap.getElem?_erase]
  exact if_congr Std.LawfulEqCmp.compare_eq_iff_eq rfl rfl

theorem value?_setAll (values : List (String × Float)) :
    (b.setAll values).value? name = (values.reverse.lookup name).or (b.value? name) := by
  induction values generalizing b with
  | nil => rfl
  | cons pair values ih =>
    obtain ⟨written, value⟩ := pair
    have hcons : b.setAll ((written, value) :: values) = (b.set written value).2.setAll values :=
      rfl
    rw [hcons, ih, List.reverse_cons, List.lookup_append, Option.or_assoc, value?_set]
    by_cases h : written = name
    · subst h
      simp
    · have hne : (name == written) = false := beq_eq_false_iff_ne.2 (Ne.symm h)
      simp [List.lookup_cons, h, hne]

/-! ## Functions -/

theorem functions_setAll (values : List (String × Float)) :
    (b.setAll values).functions = b.functions := by
  induction values generalizing b with
  | nil => rfl
  | cons pair values ih => exact ih (b.set pair.1 pair.2).2

theorem call_empty (args : List Float) : empty.call name args = .error (.unknownFunction name) := by
  have hnone : empty.functions[name]? = none := Std.ExtTreeMap.getElem?_empty
  rw [call, hnone]

theorem hasFunction_eq : b.hasFunction name = b.functions[name]?.isSome :=
  Std.ExtTreeMap.contains_eq_isSome_getElem?

theorem functions_define (written : String) (function : Function) :
    (b.define written function).functions[name]? =
      if written = name then some function else b.functions[name]? := by
  show (b.functions.insert written function)[name]? = _
  rw [Std.ExtTreeMap.getElem?_insert]
  exact if_congr Std.LawfulEqCmp.compare_eq_iff_eq rfl rfl

theorem call_setAll (values : List (String × Float)) (args : List Float) :
    (b.setAll values).call name args = b.call name args := by
  rw [call, call, functions_setAll]

/-! ## Builtins -/

/-- A function is the first of its name in a list of builtins in which no name comes twice. -/
theorem functions_foldl_define (builtins : List Builtin) (h : (builtins.map (·.name)).Nodup) :
    (builtins.foldl (fun b f => b.define f.name f.invoke) b).functions[name]? =
      ((builtins.find? (·.name == name)).map Builtin.invoke).or b.functions[name]? := by
  induction builtins generalizing b with
  | nil => rfl
  | cons f builtins ih =>
    rw [List.map_cons, List.nodup_cons] at h
    rw [List.foldl_cons, ih _ h.2, functions_define]
    by_cases hf : f.name = name
    · have hnone : builtins.find? (·.name == name) = none := by
        rw [List.find?_eq_none]
        intro g hg hgn
        rw [← hf] at hgn
        exact h.1 (List.mem_map.2 ⟨g, hg, beq_iff_eq.1 hgn⟩)
      have hfirst : (f :: builtins).find? (·.name == name) = some f :=
        List.find?_cons_of_pos (beq_iff_eq.2 hf)
      rw [hnone, hfirst]
      exact if_pos hf
    · have hlater : (f :: builtins).find? (·.name == name) = builtins.find? (·.name == name) :=
        List.find?_cons_of_neg (by simpa using hf)
      rw [hlater, if_neg hf]

theorem value?_foldl_define (builtins : List Builtin) :
    (builtins.foldl (fun b f => b.define f.name f.invoke) b).value? name = b.value? name := by
  induction builtins generalizing b with
  | nil => rfl
  | cons f builtins ih => exact ih (b.define f.name f.invoke)

end Bindings

theorem Builtin.nodup_names : (Builtin.all.map (·.name)).Nodup := by decide

namespace Bindings

variable (b : Bindings) (name : String)

theorem functions_install :
    b.install.functions[name]? =
      ((Builtin.all.find? (·.name == name)).map Builtin.invoke).or b.functions[name]? := by
  rw [install, functions_setAll, functions_foldl_define _ _ _ Builtin.nodup_names]

theorem call_install (args : List Float) :
    b.install.call name args =
      match Builtin.all.find? (·.name == name) with
      | some f => f.invoke args
      | none => b.call name args := by
  rw [call, functions_install]
  cases Builtin.all.find? (·.name == name) with
  | none => rfl
  | some f => rfl

theorem value?_install :
    b.install.value? name = (Builtin.constants.lookup name).or (b.value? name) := by
  have hreverse : Builtin.constants.reverse.lookup name = Builtin.constants.lookup name := by
    by_cases hpi : name = "pi"
    · subst hpi
      rfl
    · have hpi : (name == "pi") = false := beq_eq_false_iff_ne.2 hpi
      simp [Builtin.constants, List.lookup_cons, hpi]
  rw [install, value?_setAll, value?_foldl_define, hreverse]

theorem call_builtin (args : List Float) : builtin.call name args = Builtin.call name args := by
  rw [builtin, call_install, call_empty, Builtin.call]
  cases Builtin.all.find? (·.name == name) with
  | none => rfl
  | some f => rfl

theorem value?_builtin : builtin.value? name = Builtin.constants.lookup name := by
  rw [builtin, value?_install, value?_empty, Option.or_none]

end Bindings

/-! ## The bindings of a run -/

namespace Options

variable (o : Options) (name : String)

theorem lookup_definitions (definitions : List Definition) :
    (definitions.map fun d => (d.name, d.value)).lookup name =
      (definitions.find? (·.name == name)).map (·.value) := by
  induction definitions with
  | nil => rfl
  | cons d definitions ih =>
    rw [List.map_cons, List.lookup_cons, List.find?_cons, ih, BEq.comm]
    cases d.name == name with
    | true => rfl
    | false => rfl

/-- **The last definition of a name gives its value**, also to a builtin constant. -/
theorem value?_bindings :
    o.bindings.value? name =
      ((o.definitions.reverse.find? (·.name == name)).map (·.value)).or
        (if o.builtins then Builtin.constants.lookup name else none) := by
  rw [bindings, Bindings.value?_setAll, ← List.map_reverse, lookup_definitions]
  cases o.builtins with
  | true => rw [if_pos rfl, if_pos rfl, Bindings.value?_builtin]
  | false => rw [if_neg Bool.false_ne_true, if_neg Bool.false_ne_true, Bindings.value?_empty]

/-- **The functions of a run are the builtins**, whatever the definitions are. -/
theorem call_bindings (args : List Float) :
    o.bindings.call name args =
      if o.builtins then Builtin.call name args else .error (.unknownFunction name) := by
  rw [bindings, Bindings.call_setAll]
  cases o.builtins with
  | true => rw [if_pos rfl, if_pos rfl, Bindings.call_builtin]
  | false => rw [if_neg Bool.false_ne_true, if_neg Bool.false_ne_true, Bindings.call_empty]

end Options

end Formula
