import Formula.Definition
import Formula.Proofs.Acceptance
import Formula.Proofs.Cutting
import Formula.Proofs.Digits
import Formula.Proofs.Lines
import Formula.Proofs.Lookup

/-!
# Definitions

* **`tokenize_eq_name_iff`**: a name is what a formula reads as one name.
* `Trims`: a text and what is left of it without the blanks at its ends; `trims_iff` says that this
  is what trimming comes to.
* `Parted`: a text is parted at its first `=`.
* **`definition_iff`**: which definition a text is, and which fault it has.
* `Bindings.evaluate_name`: a name is a formula, and has the value that it is given.
* **`definition_round_trip`**: written definitions are read back, and are what their names
  evaluate to.
-/

namespace Formula

/-! ## Names -/

/-- **A name is what is read as one name.** -/
theorem tokenize_eq_name_iff (name : String) :
    tokenize name = .ok [.name name] ↔ isName name.toList := by
  rw [tokenize_eq_ok_iff, pieces_toList]
  constructor
  · intro h
    have hmem : .token (.name name) ∈ (Item.ofSource name).map (·.piece) := by
      rw [pieces_toList, h]
      exact .head _
    obtain ⟨cs, hcs⟩ := (cuts_ofChars 0 name.toList).spelled hmem
    cases hcs with
    | name hname => rwa [String.toList_ofList]
  · intro h
    have hpieces := pieces_name h delimited_nil
    rwa [List.append_nil, String.ofList_toList, pieces_nil] at hpieces

/-! ## Blanks at the ends -/

variable {cs ds front back : List Char}

/-- The text `ds` is `cs` without the blanks at its two ends. -/
structure Trims (cs ds : List Char) : Prop where
  between : ∃ front back, cs = front ++ ds ++ back ∧ (∀ c ∈ front, isBlank c) ∧
    ∀ c ∈ back, isBlank c
  head : ∀ c ∈ ds.head?, ¬ isBlank c
  last : ∀ c ∈ ds.getLast?, ¬ isBlank c

theorem trimLeft_eq_self (h : ∀ c ∈ cs.head?, ¬ isBlank c) : trimLeft cs = cs := by
  cases cs with
  | nil => rfl
  | cons c cs => exact List.dropWhile_cons_of_neg (h c rfl)

theorem trim_eq_self (hhead : ∀ c ∈ cs.head?, ¬ isBlank c)
    (hlast : ∀ c ∈ cs.getLast?, ¬ isBlank c) : trim cs = cs := by
  rw [← List.head?_reverse] at hlast
  rw [trim, trimLeft_eq_self hhead, trimRight, trimLeft_eq_self hlast, List.reverse_reverse]

theorem not_isBlank_of_head?_trimLeft {c : Char} (h : c ∈ (trimLeft cs).head?) : ¬ isBlank c :=
  Bool.eq_false_iff.1 (eq_false_of_head?_dropWhile h)

theorem trim_prefix_trimLeft (cs : List Char) : trim cs <+: trimLeft cs := by
  have hsuffix := List.dropWhile_suffix isBlank (l := (trimLeft cs).reverse)
  rwa [← List.reverse_prefix, List.reverse_reverse] at hsuffix

theorem trims_iff : Trims cs ds ↔ ds = trim cs := by
  constructor
  · rintro ⟨⟨front, back, rfl, hfront, hback⟩, hhead, hlast⟩
    rw [trim_append_blank hback, trim_blank_append hfront, trim_eq_self hhead hlast]
  · rintro rfl
    refine ⟨exists_surrounded cs, fun c hc => ?_, fun c hc => ?_⟩
    · obtain ⟨rest, hrest⟩ := trim_prefix_trimLeft cs
      have hhead : c ∈ (trimLeft cs).head? := by
        rw [← hrest, List.head?_append, Option.mem_def.1 hc]
        rfl
      exact not_isBlank_of_head?_trimLeft hhead
    · rw [trim, trimRight, List.getLast?_reverse] at hc
      exact not_isBlank_of_head?_trimLeft hc

theorem Trims.of_surrounded (hfront : ∀ c ∈ front, isBlank c) (hback : ∀ c ∈ back, isBlank c)
    (h : ∀ c ∈ ds, ¬ isBlank c) : Trims (front ++ ds ++ back) ds where
  between := ⟨front, back, rfl, hfront, hback⟩
  head c hc := h c (List.mem_of_head? hc)
  last c hc := h c (List.mem_of_getLast? hc)

/-! ## Parts -/

/-- A text is parted at its first `=`, and `name` and `value` are left of the parts without the
blanks at their ends. -/
def Parted (cs name value : List Char) : Prop :=
  ∃ front back, cs = front ++ '=' :: back ∧ '=' ∉ front ∧ Trims front name ∧ Trims back value

theorem takeWhile_ne_equals (h : '=' ∉ front) (back : List Char) :
    (front ++ '=' :: back).takeWhile (· ≠ '=') = front ∧
      (front ++ '=' :: back).dropWhile (· ≠ '=') = '=' :: back := by
  refine takeWhile_append_of_head (List.all_eq_true.2 fun c hc => ?_) ?_
  · exact decide_eq_true (ne_of_mem_of_not_mem hc h)
  · rintro c ⟨⟩
    rfl

theorem Parted.mem {name value : List Char} (h : Parted cs name value) : '=' ∈ cs := by
  obtain ⟨front, back, rfl, -⟩ := h
  exact List.mem_append_right _ (.head _)

theorem exists_parted (h : '=' ∈ cs) :
    ∃ (name : String) (value : List Char), Parted cs name.toList value := by
  obtain ⟨front, back, rfl, hfront⟩ := List.eq_append_cons_of_mem h
  exact ⟨.ofList (trim front), trim back, front, back, rfl, hfront,
    trims_iff.2 String.toList_ofList, trims_iff.2 rfl⟩

theorem Parted.unique {name value name' value' : List Char} (h : Parted cs name value)
    (h' : Parted cs name' value') : name = name' ∧ value = value' := by
  obtain ⟨front, back, rfl, hfront, hname, hvalue⟩ := h
  obtain ⟨front', back', heq, hfront', hname', hvalue'⟩ := h'
  obtain ⟨htake, hdrop⟩ := takeWhile_ne_equals hfront back
  obtain ⟨htake', hdrop'⟩ := takeWhile_ne_equals hfront' back'
  rw [heq, htake'] at htake
  rw [heq, hdrop'] at hdrop
  obtain rfl := htake
  obtain rfl := (List.cons.inj hdrop).2
  exact ⟨(trims_iff.1 hname).trans (trims_iff.1 hname').symm,
    (trims_iff.1 hvalue).trans (trims_iff.1 hvalue').symm⟩

namespace Definition

variable {text name : String} {value : List Char}

theorem ofText_of_not_mem (h : '=' ∉ text.toList) : ofText text = .error (.noValue text) := by
  have hdrop : text.toList.dropWhile (· ≠ '=') = [] := by
    rw [List.dropWhile_eq_nil_iff]
    exact fun c hc => decide_eq_true (ne_of_mem_of_not_mem hc h)
  simp only [ofText, ofChars, hdrop, String.ofList_toList]

/-- The part in front of the first `=` is looked at before the part behind it. -/
theorem ofText_of_parted (h : Parted text.toList name.toList value) :
    ofText text =
      if isName name.toList then
        ((Double.read value).map (Definition.mk name)).mapError (.badValue name)
      else .error (.badName name) := by
  obtain ⟨front, back, htext, hfront, hname, hvalue⟩ := h
  obtain ⟨htake, hdrop⟩ := takeWhile_ne_equals hfront back
  simp only [ofText, ofChars, htext, htake, hdrop]
  rw [← trims_iff.1 hname, ← trims_iff.1 hvalue, String.ofList_toList]
  split
  · cases Double.read value with
    | ok x => rfl
    | error e => rfl
  · rfl

theorem ofText_eq_ok_iff {d : Definition} :
    ofText text = .ok d ↔ ∃ value, Parted text.toList d.name.toList value ∧
      isName d.name.toList ∧ Double.read value = .ok d.value := by
  constructor
  · intro h
    by_cases hmem : '=' ∈ text.toList
    · obtain ⟨name, value, hp⟩ := exists_parted hmem
      rw [ofText_of_parted hp] at h
      split at h
      next hname =>
        cases hread : Double.read value with
        | error e =>
          rw [hread] at h
          cases h
        | ok x =>
          rw [hread] at h
          cases h
          exact ⟨value, hp, hname, hread⟩
      next => cases h
    · rw [ofText_of_not_mem hmem] at h
      cases h
  · rintro ⟨value, hp, hname, hread⟩
    rw [ofText_of_parted hp, if_pos hname, hread]
    rfl

end Definition

/-- **What a definition is.** A name is what is read as one name. A text is a definition if and only
if it has a `=`, in front of the first one there is a name, and behind it there is a double, both
without the blanks around them. Otherwise the fault is the missing `=`, else the name, else the
value. -/
theorem definition_iff :
    (∀ name : String, isName name.toList ↔ tokenize name = .ok [.name name]) ∧
    ∀ text : String,
      (∀ d : Definition, Definition.ofText text = .ok d ↔
        ∃ value, Parted text.toList d.name.toList value ∧ tokenize d.name = .ok [.name d.name] ∧
          Double.read value = .ok d.value) ∧
      (∀ found, Definition.ofText text = .error (.noValue found) ↔
        '=' ∉ text.toList ∧ found = text) ∧
      (∀ name, Definition.ofText text = .error (.badName name) ↔
        (∃ value, Parted text.toList name.toList value) ∧ tokenize name ≠ .ok [.name name]) ∧
      ∀ name e, Definition.ofText text = .error (.badValue name e) ↔
        ∃ value, Parted text.toList name.toList value ∧ tokenize name = .ok [.name name] ∧
          Double.read value = .error e := by
  refine ⟨fun name => (tokenize_eq_name_iff name).symm, fun text => ?_⟩
  simp only [ne_eq, tokenize_eq_name_iff]
  refine ⟨fun d => Definition.ofText_eq_ok_iff, ?_⟩
  by_cases h : '=' ∈ text.toList
  · obtain ⟨name, value, hp⟩ := exists_parted h
    have hparted : ∀ (n : String) (v : List Char),
        Parted text.toList n.toList v ↔ n = name ∧ v = value := by
      refine fun n v => ⟨fun hp' => ?_, fun ⟨hn, hv⟩ => hn ▸ hv ▸ hp⟩
      exact (hp'.unique hp).imp_left String.toList_inj.1
    rw [Definition.ofText_of_parted hp]
    simp only [hparted, h]
    -- the fault that comes first hides those behind it
    by_cases hname : isName name.toList
    · rw [if_pos hname]
      cases hread : Double.read value with
      | error e =>
        simp only [Except.map, Except.mapError]
        grind
      | ok x =>
        simp only [Except.map, Except.mapError]
        grind
    · rw [if_neg hname]
      grind
  · have hparted : ∀ name value, ¬ Parted text.toList name value := fun _ _ hp => h hp.mem
    simp [Definition.ofText_of_not_mem h, hparted, h, eq_comm (a := text)]

/-! ## Names and values -/

theorem Double.not_isBlank_of_mem_write {x : Float} {c : Char} (h : c ∈ write plain x) :
    ¬ isBlank c := by
  rcases isNameRest_or_of_mem_write h with h | rfl | rfl
  · exact not_isBlank_of_isNameRest h
  · decide
  · decide

theorem equals_not_mem_of_isBlank (h : ∀ c ∈ cs, isBlank c) : '=' ∉ cs :=
  fun hc => absurd (h _ hc) (by decide)

theorem equals_not_mem_of_isName (h : isName cs) : '=' ∉ cs :=
  fun hc => absurd (isNameRest_of_mem h hc) (by decide)

section Usable

variable {name : String}

theorem parted_written (hname : isName name.toList) (value : Float) {w₁ w₂ w₃ w₄ : List Char}
    (h₁ : ∀ c ∈ w₁, isBlank c) (h₂ : ∀ c ∈ w₂, isBlank c) (h₃ : ∀ c ∈ w₃, isBlank c)
    (h₄ : ∀ c ∈ w₄, isBlank c) :
    Parted ((w₁ ++ name.toList ++ w₂) ++ '=' :: (w₃ ++ Double.write Double.plain value ++ w₄))
      name.toList (Double.write Double.plain value) := by
  refine ⟨_, _, rfl, ?_, .of_surrounded h₁ h₂ ?_, .of_surrounded h₃ h₄ ?_⟩
  · simp only [List.mem_append, not_or]
    exact ⟨⟨equals_not_mem_of_isBlank h₁, equals_not_mem_of_isName hname⟩,
      equals_not_mem_of_isBlank h₂⟩
  · exact fun c hc => not_isBlank_of_isNameRest (isNameRest_of_mem hname hc)
  · exact fun c hc => Double.not_isBlank_of_mem_write hc

theorem parse_of_isName (h : isName name.toList) : parse name = .ok (.var name) := by
  have hheight : (Expr.var name).height = 1 := rfl
  refine parse_of_admits ((tokenize_eq_name_iff name).2 h) (spelled_of_operand (.var name) .sum) ?_
  rw [hheight]
  exact ⟨Nat.zero_le _, by decide⟩

theorem Bindings.evaluate_name (b : Bindings) (h : isName name.toList) (value : Float) :
    evaluate name (b.set name value).2.context = .ok value := by
  have hresolve : (b.set name value).2.resolve name = .ok value := by
    rw [resolve, value?_set, if_pos rfl]
  have hvalue : (Expr.var name).evaluate (b.set name value).2.context = .ok value := by
    simp only [Expr.evaluate, Expr.evaluateThen, context, hresolve, Expr.resume]
    rfl
  simp only [Formula.evaluate, parse_of_isName h, hvalue, Except.mapError]

end Usable

/-- **Definitions are read back and give their names their values.** A name with `=` and the text
of any double is the definition of this name with this double, with blanks around both or without.
And the name of a definition is a formula that evaluates to the value of the definition in all
bindings in which it is written. -/
theorem definition_round_trip :
    (∀ (name : String) (value : Float) (w₁ w₂ w₃ w₄ : String), isName name.toList →
      (∀ w ∈ [w₁, w₂, w₃, w₄], ∀ c ∈ w.toList, isBlank c) →
      Definition.ofText (w₁ ++ name ++ w₂ ++ "=" ++ w₃ ++ Double.text value ++ w₄) =
        .ok ⟨name, value⟩) ∧
    ∀ (text : String) (d : Definition), Definition.ofText text = .ok d → ∀ b : Bindings,
      evaluate d.name (b.set d.name d.value).2.context = .ok d.value := by
  refine ⟨fun name value w₁ w₂ w₃ w₄ hname hw => ?_, fun text d h b => ?_⟩
  · simp only [List.forall_mem_cons] at hw
    obtain ⟨h₁, h₂, h₃, h₄, -⟩ := hw
    have htext : (w₁ ++ name ++ w₂ ++ "=" ++ w₃ ++ Double.text value ++ w₄).toList =
        (w₁.toList ++ name.toList ++ w₂.toList) ++
          '=' :: (w₃.toList ++ Double.write Double.plain value ++ w₄.toList) := by
      simp [Double.text]
    have hp := parted_written hname value h₁ h₂ h₃ h₄
    rw [← htext] at hp
    exact Definition.ofText_eq_ok_iff.2 ⟨_, hp, hname, Double.read_write value⟩
  · obtain ⟨-, -, hname, -⟩ := Definition.ofText_eq_ok_iff.1 h
    exact b.evaluate_name hname d.value

/-- Minus infinity, with blanks around it and around its name. -/
theorem definition_round_trip_infinite :
    isName "x_1".toList ∧ (∀ w ∈ [" ", "\t", "\u3000", "\n"], ∀ c ∈ w.toList, isBlank c) ∧
      Definition.ofText " x_1\t=\u3000-inf\n" = .ok ⟨"x_1", -(1 / 0)⟩ ∧
      ∀ b : Bindings, evaluate "x_1" (b.set "x_1" (-(1 / 0))).2.context = .ok (-(1 / 0)) := by
  have hname : isName "x_1".toList := by decide
  have hall : [" ", "\t", "\u3000", "\n"].all fun w => w.toList.all isBlank := by decide
  have hblank : ∀ w ∈ [" ", "\t", "\u3000", "\n"], ∀ c ∈ w.toList, isBlank c := by
    simpa only [List.all_eq_true] using hall
  have htext : Double.text (-(1 / 0)) = "-inf" := by decide +kernel
  have h := definition_round_trip.1 "x_1" (-(1 / 0)) " " "\t" "\u3000" "\n" hname hblank
  have hsource : " " ++ "x_1" ++ "\t" ++ "=" ++ "\u3000" ++ "-inf" ++ "\n" =
      " x_1\t=\u3000-inf\n" := by decide
  rw [htext, hsource] at h
  have hvalue := definition_round_trip.2 _ _ h
  exact ⟨hname, hblank, h, hvalue⟩

end Formula
