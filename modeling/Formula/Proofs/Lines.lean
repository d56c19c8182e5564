import Mathlib.Data.List.DropRight
import Formula.Report

/-!
# The formulas of a file

* `trim_eq_nil_iff`, `trim_blank_append`, `trim_append_blank`: what trimming takes away.
* `splitLines_eq_splitOn`: lines are what stands between line feeds.
* `exists_surrounded`: what trimming leaves stands between blanks.
* `lines_induction`: a text is a line, or a line, a line feed and a text.
* **`formulas_append`**: the formulas of a text and of a further one after a line feed.
* **`formulas_surrounded`**: blanks around a text, line feeds among them, change no formula.
-/

namespace Formula

/-! ## Trimming -/

section Trimming

variable {cs front back : List Char}

theorem trim_eq_nil_iff : trim cs = [] ↔ ∀ c ∈ cs, isBlank c := by
  have hleft : trimLeft (trimLeft cs) = trimLeft cs := List.dropWhile_idempotent ..
  calc trim cs = []
      ↔ ∀ c ∈ trimLeft cs, isBlank c := by
        rw [trim, trimRight, List.reverse_eq_nil_iff, trimLeft, List.dropWhile_eq_nil_iff]
        simp only [List.mem_reverse]
    _ ↔ trimLeft (trimLeft cs) = [] := List.dropWhile_eq_nil_iff.symm
    _ ↔ ∀ c ∈ cs, isBlank c := by rw [hleft, trimLeft, List.dropWhile_eq_nil_iff]

theorem trim_blank_append (h : ∀ c ∈ front, isBlank c) : trim (front ++ cs) = trim cs := by
  rw [trim, trim, trimLeft, trimLeft, List.dropWhile_append_of_pos h]

theorem trimRight_append_blank (h : ∀ c ∈ back, isBlank c) :
    trimRight (cs ++ back) = trimRight cs := by
  have hback : ∀ c ∈ back.reverse, isBlank c := fun c hc => h c (List.mem_reverse.1 hc)
  rw [trimRight, trimRight, List.reverse_append, trimLeft, trimLeft,
    List.dropWhile_append_of_pos hback]

theorem trim_append_blank (h : ∀ c ∈ back, isBlank c) : trim (cs ++ back) = trim cs := by
  by_cases hcs : ∀ c ∈ cs, isBlank c
  · rw [trim_blank_append hcs, trim_eq_nil_iff.2 h, trim_eq_nil_iff.2 hcs]
  · have hne : (trimLeft cs).isEmpty = false := by
      rw [List.isEmpty_eq_false_iff]
      exact fun he => hcs (List.dropWhile_eq_nil_iff.1 he)
    have hleft : trimLeft (cs ++ back) = trimLeft cs ++ back := by
      rw [trimLeft, List.dropWhile_append]
      exact if_neg (Bool.eq_false_iff.1 hne)
    rw [trim, trim, hleft, trimRight_append_blank h]

theorem takeWhile_append_trimLeft (cs : List Char) : cs.takeWhile isBlank ++ trimLeft cs = cs :=
  List.takeWhile_append_dropWhile

theorem exists_surrounded (cs : List Char) : ∃ front back, cs = front ++ trim cs ++ back ∧
    (∀ c ∈ front, isBlank c) ∧ ∀ c ∈ back, isBlank c := by
  have hright : trim cs ++ ((trimLeft cs).reverse.takeWhile isBlank).reverse = trimLeft cs := by
    rw [trim, trimRight, ← List.reverse_append, takeWhile_append_trimLeft, List.reverse_reverse]
  refine ⟨cs.takeWhile isBlank, ((trimLeft cs).reverse.takeWhile isBlank).reverse, ?_,
    fun c hc => List.mem_takeWhile_imp hc, fun c hc => ?_⟩
  · rw [List.append_assoc, hright, takeWhile_append_trimLeft]
  · exact List.mem_takeWhile_imp (List.mem_reverse.1 hc)

theorem trim_trim (cs : List Char) : trim (trim cs) = trim cs := by
  obtain ⟨front, back, hcs, hfront, hback⟩ := exists_surrounded cs
  conv_rhs => rw [hcs]
  rw [trim_append_blank hback, trim_blank_append hfront]

end Trimming

/-! ## Lines -/

theorem splitLines_eq_splitOn (cs : List Char) : splitLines cs = cs.splitOn '\n' := by
  induction cs with
  | nil => rfl
  | cons c cs ih =>
    rw [splitLines, List.foldr_cons, ← splitLines, ih, List.splitOn_eq_splitOnP,
      List.splitOn_eq_splitOnP, List.splitOnP_cons_eq_if_modifyHead]
    cases hlines : cs.splitOnP (· == '\n') with
    | nil => exact absurd hlines (List.splitOnP_ne_nil _ _)
    | cons line others => simp only [beq_iff_eq, List.modifyHead_cons]

variable {cs ds : List Char}

theorem splitLines_append : splitLines (cs ++ '\n' :: ds) = splitLines cs ++ splitLines ds := by
  simp only [splitLines_eq_splitOn, List.splitOn_eq_splitOnP]
  exact List.splitOnP_append_cons cs ds (beq_self_eq_true '\n')

theorem splitLines_of_not_mem (h : '\n' ∉ cs) : splitLines cs = [cs] := by
  rw [splitLines_eq_splitOn, List.splitOn_eq_splitOnP]
  refine List.splitOnP_eq_singleton fun c hc => ?_
  rw [beq_eq_false_iff_ne]
  exact ne_of_mem_of_not_mem hc h

/-- A text is a line, or a line, a line feed and a text. -/
theorem lines_induction {motive : List Char → Prop} (line : ∀ cs, '\n' ∉ cs → motive cs)
    (more : ∀ cs ds, '\n' ∉ cs → motive ds → motive (cs ++ '\n' :: ds)) : ∀ cs, motive cs := by
  intro cs
  induction hn : cs.length using Nat.strongRecOn generalizing cs with
  | _ n ih =>
    by_cases h : '\n' ∈ cs
    · obtain ⟨front, back, rfl, hfront⟩ := List.eq_append_cons_of_mem h
      rw [List.length_append, List.length_cons] at hn
      exact more front back hfront (ih back.length (by omega) back rfl)
    · exact line cs h

/-! ## Formulas -/

namespace Options

theorem formulas_ofList_append (cs ds : List Char) :
    formulas (.ofList (cs ++ '\n' :: ds)) = formulas (.ofList cs) ++ formulas (.ofList ds) := by
  simp only [formulas, String.toList_ofList, splitLines_append, List.map_append,
    List.filter_append]

theorem formulas_line (h : '\n' ∉ cs) :
    formulas (.ofList cs) = if (trim cs).isEmpty then [] else [.ofList (trim cs)] := by
  rw [formulas, String.toList_ofList, splitLines_of_not_mem h, List.map_singleton,
    List.filter_singleton]
  cases (trim cs).isEmpty with
  | true => rfl
  | false => rfl

theorem formulas_cons_blank {c : Char} (hc : isBlank c) (cs : List Char) :
    formulas (.ofList (c :: cs)) = formulas (.ofList cs) := by
  have htrim : ∀ line, trim (c :: line) = trim line := fun line =>
    trim_blank_append (List.forall_mem_singleton.2 hc)
  by_cases hnew : c = '\n'
  · subst hnew
    exact formulas_ofList_append [] cs
  · have hline : ∀ line, '\n' ∉ line →
        formulas (.ofList (c :: line)) = formulas (.ofList line) := by
      intro line h
      rw [formulas_line h, formulas_line (by simp [h, Ne.symm hnew]), htrim]
    -- the blank is part of the first line, whatever comes later
    induction cs using lines_induction with
    | line line h => exact hline line h
    | more line rest h _ =>
      rw [← List.cons_append, formulas_ofList_append, formulas_ofList_append, hline line h]

theorem formulas_concat_blank {c : Char} (hc : isBlank c) (cs : List Char) :
    formulas (.ofList (cs ++ [c])) = formulas (.ofList cs) := by
  have htrim : ∀ line, trim (line ++ [c]) = trim line := fun line =>
    trim_append_blank (List.forall_mem_singleton.2 hc)
  by_cases hnew : c = '\n'
  · subst hnew
    rw [formulas_ofList_append]
    exact List.append_nil _
  · induction cs using lines_induction with
    | line line h => rw [formulas_line h, formulas_line (by simp [h, Ne.symm hnew]), htrim]
    | more line rest _ ih =>
      rw [List.append_assoc, List.cons_append, formulas_ofList_append, formulas_ofList_append, ih]

theorem formulas_blank_append {front : List Char} (h : ∀ c ∈ front, isBlank c) (cs : List Char) :
    formulas (.ofList (front ++ cs)) = formulas (.ofList cs) := by
  induction front with
  | nil => rfl
  | cons c front ih =>
    rw [List.forall_mem_cons] at h
    rw [List.cons_append, formulas_cons_blank h.1, ih h.2]

theorem formulas_append_blank {back : List Char} (h : ∀ c ∈ back, isBlank c) (cs : List Char) :
    formulas (.ofList (cs ++ back)) = formulas (.ofList cs) := by
  induction back generalizing cs with
  | nil => rw [List.append_nil]
  | cons c back ih =>
    rw [List.forall_mem_cons] at h
    rw [List.append_cons, ih h.2, formulas_concat_blank h.1]

/-- **The formulas of two texts, one after the other.** -/
theorem formulas_append (A B : String) : formulas (A ++ "\n" ++ B) = formulas A ++ formulas B := by
  have htext : A ++ "\n" ++ B = .ofList (A.toList ++ '\n' :: B.toList) := by
    apply String.toList_inj.1
    simp
  rw [htext, formulas_ofList_append, String.ofList_toList, String.ofList_toList]

/-- **Blanks around a text do not change its formulas.** -/
theorem formulas_surrounded {front back : String} (hfront : ∀ c ∈ front.toList, isBlank c)
    (hback : ∀ c ∈ back.toList, isBlank c) (A : String) :
    formulas (front ++ A ++ back) = formulas A := by
  have htext : front ++ A ++ back = .ofList (front.toList ++ (A.toList ++ back.toList)) := by
    apply String.toList_inj.1
    simp
  rw [htext, formulas_blank_append hfront, formulas_append_blank hback, String.ofList_toList]

theorem formulas_trim (A : String) : formulas (.ofList (trim A.toList)) = formulas A := by
  obtain ⟨front, back, hA, hfront, hback⟩ := exists_surrounded A.toList
  conv_rhs => rw [← A.ofList_toList, hA]
  rw [formulas_append_blank hback, formulas_blank_append hfront]

theorem formulas_of_trim {A : String} (h : '\n' ∉ trim A.toList) :
    formulas A = if (trim A.toList).isEmpty then [] else [.ofList (trim A.toList)] := by
  rw [← formulas_trim, formulas_line h, trim_trim]

end Options

end Formula
