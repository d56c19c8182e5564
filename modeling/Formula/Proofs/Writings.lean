import Formula.Proofs.Lookup

/-!
# Bindings after a history of writings

Bindings are two maps in which the last writing of a name counts. Installing the builtins writes to
both of them, for the names of the builtins only.

* `Writing`: what is done to bindings.
* `Writing.value?`, `Writing.function?`: what a writing tells of a variable and of a function.
* `lastValue?`, `lastFunction?`: what a history tells of them.
* `Bindings.value?_write`, `Bindings.functions_write`: one writing; `Bindings.value?_writeAll`,
  `Bindings.functions_writeAll`: all of them.
* **`bindings_of_history`**: what bindings answer by the history that they have.
-/

namespace Formula

/-- One change of bindings. -/
inductive Writing
  | set (name : String) (value : Float)
  | erase (name : String)
  | define (name : String) (function : Function)
  | install

namespace Bindings

/-- The bindings after a change. -/
def write (b : Bindings) : Writing → Bindings
  | .set name value => (b.set name value).2
  | .erase name => (b.erase name).2
  | .define name function => b.define name function
  | .install => b.install

/-- The bindings after some changes, the first one first. -/
def writeAll (b : Bindings) (writings : List Writing) : Bindings := writings.foldl write b

end Bindings

/-! ## What a history tells -/

namespace Writing

/-- What a writing tells of a variable: its value, or that it has none. -/
def value? (name : String) : Writing → Option (Option Float)
  | set written value => if written = name then some (some value) else none
  | erase erased => if erased = name then some none else none
  | define _ _ => none
  | install => (Builtin.constants.lookup name).map some

/-- What a writing tells of a function. -/
def function? (name : String) : Writing → Option Function
  | set _ _ => none
  | erase _ => none
  | define written function => if written = name then some function else none
  | install => (Builtin.all.find? (·.name == name)).map Builtin.invoke

end Writing

section Latest

variable {α : Type} (told : Writing → Option α)

/-- What is told by the last writing that tells anything. -/
def latest (history : List Writing) : Option α := history.reverse.findSome? told

theorem latest_cons (w : Writing) (history : List Writing) :
    latest told (w :: history) = (latest told history).or (told w) := by
  rw [latest, List.reverse_cons, List.findSome?_append, List.findSome?_singleton, latest]

theorem isSome_latest_iff (history : List Writing) :
    (latest told history).isSome ↔ ∃ w ∈ history, (told w).isSome := by
  rw [latest, List.findSome?_isSome_iff]
  exact exists_congr fun w => and_congr_left' List.mem_reverse

end Latest

/-- The value of a variable by the last writing of it, none if that one takes it away. -/
def lastValue? (name : String) (history : List Writing) : Option Float :=
  (latest (Writing.value? name) history).join

/-- The function that was bound last under a name. -/
def lastFunction? (name : String) (history : List Writing) : Option Function :=
  latest (Writing.function? name) history

theorem isSome_lastFunction?_iff (name : String) (history : List Writing) :
    (lastFunction? name history).isSome ↔
      (∃ function, .define name function ∈ history) ∨
        .install ∈ history ∧ name ∈ Builtin.all.map (·.name) := by
  rw [lastFunction?, isSome_latest_iff]
  constructor
  · rintro ⟨w, hw, htold⟩
    cases w with
    | set written value => cases htold
    | erase erased => cases htold
    | define written function =>
      rw [Writing.function?] at htold
      by_cases h : written = name
      · subst h
        exact .inl ⟨function, hw⟩
      · rw [if_neg h] at htold
        cases htold
    | install =>
      rw [Writing.function?, Option.isSome_map, List.find?_isSome] at htold
      obtain ⟨f, hf, hname⟩ := htold
      exact .inr ⟨hw, List.mem_map.2 ⟨f, hf, beq_iff_eq.1 hname⟩⟩
  · rintro (⟨function, hw⟩ | ⟨hw, hname⟩)
    · exact ⟨_, hw, by rw [Writing.function?, if_pos rfl, Option.isSome_some]⟩
    · obtain ⟨f, hf, hname⟩ := List.mem_map.1 hname
      refine ⟨_, hw, ?_⟩
      rw [Writing.function?, Option.isSome_map, List.find?_isSome]
      exact ⟨f, hf, beq_iff_eq.2 hname⟩

/-! ## Writing by writing -/

namespace Bindings

variable (b : Bindings) (name : String)

theorem value?_write (w : Writing) :
    (b.write w).value? name = (w.value? name).getD (b.value? name) := by
  cases w with
  | set written value =>
    rw [write, value?_set, Writing.value?]
    by_cases h : written = name
    · rw [if_pos h, if_pos h, Option.getD_some]
    · rw [if_neg h, if_neg h, Option.getD_none]
  | erase erased =>
    rw [write, value?_erase, Writing.value?]
    by_cases h : erased = name
    · rw [if_pos h, if_pos h, Option.getD_some]
    · rw [if_neg h, if_neg h, Option.getD_none]
  | define written function => rfl
  | install =>
    rw [write, value?_install, Writing.value?]
    cases Builtin.constants.lookup name with
    | none => rfl
    | some value => rfl

theorem functions_write (w : Writing) :
    (b.write w).functions[name]? = (w.function? name).or b.functions[name]? := by
  cases w with
  | set written value => rfl
  | erase erased => rfl
  | define written function =>
    rw [write, functions_define, Writing.function?]
    by_cases h : written = name
    · rw [if_pos h, if_pos h, Option.some_or]
    · rw [if_neg h, if_neg h, Option.none_or]
  | install => rw [write, functions_install, Writing.function?]

theorem value?_writeAll (writings : List Writing) :
    (b.writeAll writings).value? name =
      (latest (Writing.value? name) writings).getD (b.value? name) := by
  induction writings generalizing b with
  | nil => rfl
  | cons w writings ih =>
    rw [writeAll, List.foldl_cons, ← writeAll, ih, value?_write, latest_cons]
    cases latest (Writing.value? name) writings with
    | none => rfl
    | some value => rfl

theorem functions_writeAll (writings : List Writing) :
    (b.writeAll writings).functions[name]? =
      (lastFunction? name writings).or b.functions[name]? := by
  induction writings generalizing b with
  | nil => rfl
  | cons w writings ih =>
    rw [writeAll, List.foldl_cons, ← writeAll, ih, functions_write, lastFunction?, lastFunction?,
      latest_cons, Option.or_assoc]

/-! ## Installing the builtins -/

theorem ext_lookup {b b' : Bindings} (hvalues : ∀ name, b.value? name = b'.value? name)
    (hfunctions : ∀ name : String, b.functions[name]? = b'.functions[name]?) : b = b' := by
  obtain ⟨values, functions⟩ := b
  obtain ⟨values', functions'⟩ := b'
  obtain rfl : values = values' := Std.ExtTreeMap.ext_getElem? hvalues
  obtain rfl : functions = functions' := Std.ExtTreeMap.ext_getElem? hfunctions
  rfl

theorem install_install : b.install.install = b.install := by
  refine ext_lookup (fun name => ?_) fun name => ?_
  · rw [value?_install, value?_install, ← Option.or_assoc, Option.or_self]
  · rw [functions_install, functions_install, ← Option.or_assoc, Option.or_self]

theorem value?_install_of_not_mem (h : name ∉ Builtin.constants.map (·.1)) :
    b.install.value? name = b.value? name := by
  rw [value?_install, List.lookup_eq_none_iff.2 ?_, Option.none_or]
  rintro ⟨constant, value⟩ hmem
  exact bne_iff_ne.2 fun heq => h (List.mem_map.2 ⟨_, hmem, heq.symm⟩)

theorem functions_install_of_not_mem (h : name ∉ Builtin.all.map (·.name)) :
    b.install.functions[name]? = b.functions[name]? := by
  rw [functions_install, List.find?_eq_none.2 ?_, Option.map_none, Option.none_or]
  intro f hf hname
  exact h (List.mem_map.2 ⟨f, hf, beq_iff_eq.1 hname⟩)

end Bindings

/-- Bindings answer by the last writings of their history, which starts with an installing if they
started with the builtins. -/
theorem lookup_writeAll (builtins : Bool) (writings : List Writing) (name : String) :
    let b := (if builtins then Bindings.builtin else .empty).writeAll writings
    let history := if builtins then .install :: writings else writings
    b.value? name = lastValue? name history ∧ b.functions[name]? = lastFunction? name history := by
  intro b history
  have hb : b = Bindings.empty.writeAll history := by
    cases builtins with
    | true => rfl
    | false => rfl
  have hnone : Bindings.empty.functions[name]? = none := Std.ExtTreeMap.getElem?_empty
  rw [hb, Bindings.value?_writeAll, Bindings.functions_writeAll, Bindings.value?_empty, hnone,
    Option.or_none, lastValue?]
  exact ⟨by cases latest (Writing.value? name) history <;> rfl, rfl⟩

/-- **Bindings are two maps in which the last writing counts.** After any writings, a variable has
the value of the last one of it, also as the answer of a further writing, and a function is there
once it was written and is called as it was written last. Variables and functions are kept apart.
Installing writes the builtins only, and a second time nothing. -/
theorem bindings_of_history (builtins : Bool) (writings : List Writing) :
    let b := (if builtins then Bindings.builtin else .empty).writeAll writings
    let history := if builtins then .install :: writings else writings
    (∀ name, b.value? name = lastValue? name history ∧
      b.resolve name = (lastValue? name history).elim (.error (.unknownVariable name)) .ok ∧
      ∀ value, (b.set name value).1 = lastValue? name history ∧
        (b.erase name).1 = lastValue? name history) ∧
    (∀ name,
      (b.hasFunction name ↔ (∃ function, .define name function ∈ history) ∨
        .install ∈ history ∧ name ∈ Builtin.all.map (·.name)) ∧
      ∀ args, b.call name args =
        (lastFunction? name history).elim (.error (.unknownFunction name)) (· args)) ∧
    (∀ name value function, (b.set name value).2.functions = b.functions ∧
      (b.erase name).2.functions = b.functions ∧ (b.define name function).values = b.values) ∧
    (∀ name,
      (name ∉ Builtin.constants.map (·.1) → b.install.value? name = b.value? name) ∧
      (name ∉ Builtin.all.map (·.name) → b.install.functions[name]? = b.functions[name]?)) ∧
    b.install.install = b.install := by
  intro b history
  have hlookup : ∀ name : String, b.value? name = lastValue? name history ∧
      b.functions[name]? = lastFunction? name history := lookup_writeAll builtins writings
  refine ⟨fun name => ?_, fun name => ⟨?_, fun args => ?_⟩, fun name value function =>
    ⟨rfl, rfl, rfl⟩, fun name => ⟨b.value?_install_of_not_mem name,
      b.functions_install_of_not_mem name⟩, b.install_install⟩
  · have hvalue := (hlookup name).1
    refine ⟨hvalue, ?_, fun value => ⟨hvalue, hvalue⟩⟩
    rw [Bindings.resolve, hvalue]
    cases lastValue? name history with
    | none => rfl
    | some value => rfl
  · rw [Bindings.hasFunction_eq, (hlookup name).2]
    exact isSome_lastFunction?_iff name history
  · rw [Bindings.call, (hlookup name).2]
    cases lastFunction? name history with
    | none => rfl
    | some function => rfl

/-- Builtins, of which some are overwritten, then installed again. -/
theorem bindings_of_history_reinstalled :
    let writings : List Writing := [.set "pi" 3, .set "min" 7, .define "min" fun _ => .ok 0,
      .erase "e", .install, .erase "pi"]
    let b := Bindings.builtin.writeAll writings
    b.value? "pi" = none ∧ b.resolve "e" = .ok 2.718281828459045 ∧ b.value? "min" = some 7 ∧
      b.call "min" [2, 1] = .ok (Builtin.least 2 1) ∧
      ("min" ∉ Builtin.constants.map (·.1) ∧ b.install.value? "min" = b.value? "min") ∧
      "f" ∉ Builtin.all.map (·.name) ∧ b.install.functions["f"]? = b.functions["f"]? := by
  intro writings b
  have hconstant : "min" ∉ Builtin.constants.map (·.1) := by decide
  have hfunction : "f" ∉ Builtin.all.map (·.name) := by decide
  obtain ⟨hvalues, hfunctions, -, hinstall, -⟩ := bindings_of_history true writings
  exact ⟨(hvalues "pi").1, (hvalues "e").2.1, (hvalues "min").1, (hfunctions "min").2 [2, 1],
    ⟨hconstant, (hinstall "min").1 hconstant⟩, hfunction, (hinstall "f").2 hfunction⟩

end Formula
