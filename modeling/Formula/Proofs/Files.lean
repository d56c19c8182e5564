import Mathlib
import Formula.Proofs.Lines
import Formula.Proofs.OneLine

/-!
# Files of formulas

* `Report.Leaves`: what a run leaves behind.
* `Report.Leaves.append`: the outcomes of one run and of another, together.
* **`report_file`**: texts one after the other are reported one after the other, and a line is
  reported as the formula that it is.
-/

namespace Formula

namespace Report

/-- A run leaves two texts behind, on the standard output and on the error output, and whether it
succeeded. -/
structure Leaves (r : Report) (output errors : String) (succeeded : Bool) : Prop where
  output : r.output = output
  errors : r.errors = errors
  succeeded : r.succeeded = succeeded

theorem unlines_append (xs ys : List String) : unlines (xs ++ ys) = unlines xs ++ unlines ys := by
  rw [unlines, List.map_append, String.join_append, unlines, unlines]

theorem leaves_self (r : Report) : r.Leaves r.output r.errors r.succeeded := ⟨rfl, rfl, rfl⟩

theorem leaves_nil : Leaves [] "" "" true := ⟨rfl, rfl, rfl⟩

theorem leaves_ok (line : String) : Leaves [.ok line] (line ++ "\n") "" true :=
  ⟨String.empty_append, rfl, rfl⟩

theorem leaves_error (line : String) : Leaves [.error line] "" (line ++ "\n") false :=
  ⟨rfl, String.empty_append, rfl⟩

variable {r s : Report} {output errors output' errors' : String} {succeeded succeeded' : Bool}

theorem Leaves.append (h : r.Leaves output errors succeeded)
    (h' : s.Leaves output' errors' succeeded') :
    Leaves (r ++ s) (output ++ output') (errors ++ errors') (succeeded && succeeded') := by
  obtain ⟨rfl, rfl, rfl⟩ := h
  obtain ⟨rfl, rfl, rfl⟩ := h'
  refine ⟨?_, ?_, List.all_append⟩
  · rw [Report.output, List.filterMap_append, unlines_append, ← Report.output, ← Report.output]
  · rw [Report.errors, List.filterMap_append, unlines_append, ← Report.errors, ← Report.errors]

end Report

namespace Options

variable {o : Options}

theorem report_of_file (ho : o.file) (script : String) :
    o.report (some script) = (formulas script).map o.line :=
  if_pos ho

theorem report_append (ho : o.file) (A B : String) :
    o.report (some (A ++ "\n" ++ B)) = o.report (some A) ++ o.report (some B) := by
  rw [report_of_file ho, report_of_file ho, report_of_file ho, formulas_append, List.map_append]

theorem report_of_trim (ho : o.file) {A : String} (h : '\n' ∉ trim A.toList) :
    o.report (some A) =
      if (trim A.toList).isEmpty then [] else [o.line (.ofList (trim A.toList))] := by
  rw [report_of_file ho, formulas_of_trim h]
  cases (trim A.toList).isEmpty with
  | true => rfl
  | false => rfl

end Options

/-- **Files are reported line by line.** All lines are answered by the same bindings: the builtins,
if they are on, under the definitions, the last one of a name first. A text and another one after a
line feed leave behind what they do alone. A blank text leaves nothing, and one line leaves the one
line that it gives as a formula. Blanks around a text change nothing. -/
theorem report_file (o : Options) (ho : o.file) :
    (∀ name, o.bindings.value? name =
      ((o.definitions.reverse.find? (·.name == name)).map (·.value)).or
        (if o.builtins then Builtin.constants.lookup name else none)) ∧
    (∀ name args, o.bindings.call name args =
      if o.builtins then Builtin.call name args else .error (.unknownFunction name)) ∧
    (∀ A B : String, (o.report (some (A ++ "\n" ++ B))).Leaves
      ((o.report (some A)).output ++ (o.report (some B)).output)
      ((o.report (some A)).errors ++ (o.report (some B)).errors)
      ((o.report (some A)).succeeded && (o.report (some B)).succeeded)) ∧
    (∀ A : String, trim A.toList = [] → (o.report (some A)).Leaves "" "" true) ∧
    (∀ A : String, trim A.toList ≠ [] → '\n' ∉ trim A.toList →
      match o.line (.ofList (trim A.toList)) with
      | .ok line => IsLine line ∧ (o.report (some A)).Leaves (line ++ "\n") "" true
      | .error line => IsLine line ∧ (o.report (some A)).Leaves "" (line ++ "\n") false) ∧
    ∀ front A back : String, (∀ c ∈ front.toList, isBlank c) → (∀ c ∈ back.toList, isBlank c) →
      o.report (some (front ++ A ++ back)) = o.report (some A) := by
  refine ⟨o.value?_bindings, o.call_bindings, fun A B => ?_, fun A hA => ?_, fun A hA hline => ?_,
    fun front A back hfront hback => ?_⟩
  · rw [Options.report_append ho]
    exact (Report.leaves_self _).append (Report.leaves_self _)
  · have hline : '\n' ∉ trim A.toList := by
      rw [hA]
      exact List.not_mem_nil
    rw [Options.report_of_trim ho hline, hA]
    exact Report.leaves_nil
  · have hreport : o.report (some A) = [o.line (.ofList (trim A.toList))] := by
      rw [Options.report_of_trim ho hline, if_neg (by simpa using hA)]
    have hisLine := o.isLine_line (isLine_ofList.2 hline)
    rw [hreport]
    cases houtcome : o.line (.ofList (trim A.toList)) with
    | ok line =>
      rw [houtcome] at hisLine
      exact ⟨hisLine, Report.leaves_ok line⟩
    | error line =>
      rw [houtcome] at hisLine
      exact ⟨hisLine, Report.leaves_error line⟩
  · rw [Options.report_of_file ho, Options.report_of_file ho,
      Options.formulas_surrounded hfront hback]

/-- A value by a definition over a constant, a blank line and an error, with carriage returns. -/
theorem report_file_redefined :
    let o : Options := { file := true, definitions := [⟨"pi", 3⟩], contents := "script" }
    (o.report (some " pi\r\n\n)")).Leaves "3\n" "Error at offset 0: Unexpected token: ')'.\n"
      false := by
  intro o
  obtain ⟨hvalue, -, hjoin, hblank, hline, hsurrounded⟩ := report_file o rfl
  have hpi : o.line "pi" = .ok "3" := by
    have hparse : parse "pi" o.limits = .ok (.var "pi") := by cbv
    have hresolve : o.bindings.resolve "pi" = .ok 3 := by
      rw [Bindings.resolve, hvalue "pi"]
      rfl
    have hevaluate : (Expr.var "pi").evaluate o.bindings.context = .ok 3 := by
      rw [Expr.evaluate_eq_postOrder, Expr.postOrder]
      exact hresolve
    have hthree : Double.text 3 = "3" := by decide +kernel
    simp only [Options.line, hparse, hevaluate, hthree]
    rfl
  have hparen : o.line ")" = .error "Error at offset 0: Unexpected token: ')'." := by
    have hparse : parse ")" o.limits = .error (.unexpectedToken "')'" 0) := by cbv
    simp only [Options.line, hparse]
    decide
  have hfirst : (o.report (some " pi\r")).Leaves "3\n" "" true := by
    have h := hline " pi\r" (by decide) (by decide)
    have htrim : String.ofList (trim " pi\r".toList) = "pi" := by decide
    rw [htrim, hpi] at h
    exact h.2
  have hlast : (o.report (some ")")).Leaves "" "Error at offset 0: Unexpected token: ')'.\n"
      false := by
    have h := hline ")" (by decide) (by decide)
    have htrim : String.ofList (trim ")".toList) = ")" := by decide
    rw [htrim, hparen] at h
    exact h.2
  have hrest : o.report (some "\n)") = o.report (some ")") := by
    have hfront : ∀ c ∈ ['\n'], isBlank c := List.forall_mem_singleton.2 (by decide)
    exact hsurrounded "\n" ")" "" hfront (by simp)
  have hwhole := hjoin " pi\r" "\n)"
  rw [hrest, hfirst.output, hfirst.errors, hfirst.succeeded, hlast.output, hlast.errors,
    hlast.succeeded] at hwhole
  exact hwhole

end Formula
