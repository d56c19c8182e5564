import Mathlib.Data.List.Nodup
import Formula.Handler
import Formula.Proofs.Lookup

/-!
# Calling builtins

* `Binary64.le_iff_not_lt`: numbers lie one way or the other, so bounds are in order exactly if they
  are not refused.
* `Handler.Serves`: a handler does what a builtin does, and does not fault.
* **`Handler.call_eq`**: no call of a builtin faults.
* **`call_outcome`**: which outcome a call has.
* **`call_installed`**: a builtin does the same in bindings.
-/

namespace Formula

/-! ## The order of doubles -/

namespace Binary64

open Float.Model (UnpackedFloat)
open Float.Model.UnpackedFloat

theorem swap_compareSign (s t : Sign) : (compare s t).swap = compare t s := by
  cases s <;> cases t <;> rfl

theorem swap_compare (u v : UnpackedFloat) : (u.compare v).map Ordering.swap = v.compare u := by
  cases u with
  | infinity s =>
    cases v with
    | infinity t => exact congrArg some (swap_compareSign s t)
    | _ => cases s <;> rfl
  | notANumber => cases v <;> rfl
  | zero s =>
    cases v with
    | infinity t | finite t => cases t <;> rfl
    | notANumber | zero => rfl
  | finite s m e =>
    cases v with
    | infinity t => cases s <;> cases t <;> rfl
    | notANumber | zero => cases s <;> rfl
    | finite t n f =>
      have hthen : ((compare e f).then (compare m n)).swap = (compare f e).then (compare n m) := by
        rw [Ordering.swap_then, Int.compare_swap, Nat.compare_swap]
      cases s with
      | negative =>
        cases t with
        | negative => exact congrArg (fun o => some o.swap) hthen
        | positive => rfl
      | positive =>
        cases t with
        | negative => rfl
        | positive => exact congrArg some hthen

theorem compare_eq_none_iff (u v : UnpackedFloat) : u.compare v = none ↔ u.isNaN ∨ v.isNaN := by
  cases u with
  | notANumber => exact ⟨fun _ => .inl rfl, fun _ => rfl⟩
  | infinity s | zero s | finite s m e =>
    cases v with
    | notANumber => cases s <;> exact ⟨fun _ => .inr rfl, fun _ => rfl⟩
    | infinity t | zero t | finite t n f => cases s <;> cases t <;> exact ⟨nofun, nofun⟩

theorem le_iff_not_lt {x y : Float} : x ≤ y ↔ x.isNaN = false ∧ y.isNaN = false ∧ ¬ y < x := by
  have hle : x ≤ y ↔ (x.toModel.unpack.compare y.toModel.unpack).any Ordering.isLE :=
    decide_eq_true_iff
  have hlt : y < x ↔ y.toModel.unpack.compare x.toModel.unpack = some .lt :=
    decide_eq_true_iff.trans beq_iff_eq
  have hnan : x.toModel.unpack.compare y.toModel.unpack = none ↔ x.isNaN ∨ y.isNaN :=
    compare_eq_none_iff _ _
  rw [hle, hlt, ← swap_compare x.toModel.unpack]
  cases h : x.toModel.unpack.compare y.toModel.unpack with
  | none =>
    refine ⟨fun hl => (Bool.false_ne_true hl).elim, fun ⟨hx, hy, _⟩ => ?_⟩
    rcases hnan.1 h with hn | hn
    · exact absurd hn (Bool.eq_false_iff.1 hx)
    · exact absurd hn (Bool.eq_false_iff.1 hy)
  | some o =>
    have hsome : ¬ (x.isNaN ∨ y.isNaN) := fun hn => Option.some_ne_none o (h.symm.trans (hnan.2 hn))
    have hsides : (some o).any Ordering.isLE ↔ ¬ (some o).map Ordering.swap = some .lt := by
      cases o <;> decide
    rw [not_or, Bool.not_eq_true, Bool.not_eq_true] at hsome
    exact ⟨fun hl => ⟨hsome.1, hsome.2, hsides.1 hl⟩, fun hr => hsides.2 hr.2.2⟩

end Binary64

/-! ## Handlers that serve for builtins -/

/-- The arguments that a builtin refuses: bounds of `clamp` that are a NaN or not in order. -/
def Refused (name : String) (args : List Float) : Prop :=
  name = "clamp" ∧ ∃ x low high, args = [x, low, high] ∧ (low.isNaN ∨ high.isNaN ∨ high < low)

namespace Handler

/-- The handler takes what the builtin takes, and comes to the same result without a fault. -/
structure Serves (h : Handler) (b : Builtin) : Prop where
  name : h.name = b.name
  allows : ∀ n, h.arity.allows n ↔ n ∈ b.operation.counts
  text : h.arity.text = b.expected
  run : ∀ args, h.arity.allows args.length → ∃ r, h.run args = .ok r ∧
    b.operation.apply args = some r ∧ ((∃ details, r = .error details) ↔ Refused h.name args)

theorem exists_ok_eq_error_iff {name : String} (hname : name ≠ "clamp") (x : Float)
    (args : List Float) :
    (∃ details, (.ok x : Except String Float) = .error details) ↔ Refused name args := by
  constructor
  · rintro ⟨details, ⟨⟩⟩
  · exact fun hr => absurd hr.1 hname

theorem serves_one {name : String} (hname : name ≠ "clamp") (f : Float → Float) :
    Serves ⟨name, .exactly 1, one f⟩ ⟨name, .one f⟩ where
  name := rfl
  allows n := by simp [Arity.allows, Operation.counts]
  text := rfl
  run args h := by
    obtain ⟨x, rfl⟩ := List.length_eq_one_iff.1 (beq_iff_eq.1 h)
    exact ⟨.ok (f x), rfl, rfl, exists_ok_eq_error_iff hname ..⟩

theorem serves_two {name : String} (hname : name ≠ "clamp") (f : Float → Float → Float) :
    Serves ⟨name, .exactly 2, two f⟩ ⟨name, .two f⟩ where
  name := rfl
  allows n := by simp [Arity.allows, Operation.counts]
  text := rfl
  run args h := by
    obtain ⟨x, y, rfl⟩ := List.length_eq_two.1 (beq_iff_eq.1 h)
    exact ⟨.ok (f x y), rfl, rfl, exists_ok_eq_error_iff hname ..⟩

theorem serves_log :
    Serves ⟨"log", .oneOf [1, 2], log⟩ ⟨"log", .oneOrTwo Float.log10 Builtin.logarithm⟩ where
  name := rfl
  allows n := by simp [Arity.allows, Operation.counts]
  text := rfl
  run args h := by
    have hname : "log" ≠ "clamp" := by decide
    have hlength : args.length = 1 ∨ args.length = 2 := by simpa [Arity.allows] using h
    rcases hlength with h | h
    · obtain ⟨x, rfl⟩ := List.length_eq_one_iff.1 h
      exact ⟨.ok x.log10, rfl, rfl, exists_ok_eq_error_iff hname ..⟩
    · obtain ⟨x, y, rfl⟩ := List.length_eq_two.1 h
      exact ⟨.ok (Builtin.logarithm x y), rfl, rfl, exists_ok_eq_error_iff hname ..⟩

/-- The bounds that are refused are those between which no number can be held. -/
theorem refused_iff {low high : Float} :
    (low.isNaN || high.isNaN || high < low) ↔ ¬ low ≤ high := by
  rw [Binary64.le_iff_not_lt]
  simp only [Bool.or_eq_true, decide_eq_true_eq]
  grind

theorem clamp_eq (x low high : Float) : clamp [x, low, high] = .ok (Builtin.clamp x low high) := by
  by_cases h : low ≤ high
  · have hcond : ¬ (low.isNaN || high.isNaN || high < low) := fun hr => refused_iff.1 hr h
    have hrun : clamp [x, low, high] = (between x low high).map .ok := if_neg hcond
    rw [hrun, between, if_pos h, Builtin.clamp, if_neg hcond]
    rfl
  · have hcond := refused_iff.2 h
    rw [Builtin.clamp, if_pos hcond]
    exact if_pos hcond

theorem exists_clamp_eq_error (x low high : Float) :
    (∃ details, Builtin.clamp x low high = .error details) ↔
      low.isNaN ∨ high.isNaN ∨ high < low := by
  have hcond : (low.isNaN || high.isNaN || high < low) ↔ low.isNaN ∨ high.isNaN ∨ high < low := by
    simp only [Bool.or_eq_true, decide_eq_true_eq, or_assoc]
  rw [← hcond, Builtin.clamp]
  split
  next h => exact ⟨fun _ => h, fun _ => ⟨_, rfl⟩⟩
  next h => exact ⟨nofun, fun hr => absurd hr h⟩

theorem serves_clamp : Serves ⟨"clamp", .exactly 3, clamp⟩ ⟨"clamp", .three Builtin.clamp⟩ where
  name := rfl
  allows n := by simp [Arity.allows, Operation.counts]
  text := rfl
  run args h := by
    obtain ⟨x, low, high, rfl⟩ := List.length_eq_three.1 (beq_iff_eq.1 h)
    refine ⟨Builtin.clamp x low high, clamp_eq x low high, rfl, ?_⟩
    rw [exists_clamp_eq_error]
    constructor
    · exact fun hr => ⟨rfl, x, low, high, rfl, hr⟩
    · rintro ⟨-, _, _, _, ⟨⟩, hr⟩
      exact hr

theorem table_serves : List.Forall₂ Serves table Builtin.all := by
  simp [table, Builtin.all, serves_one, serves_two, serves_log, serves_clamp]

section Serving

variable {h : Handler} {b : Builtin} {args : List Float}

theorem Serves.invoke_of_not_allows (hs : h.Serves b) (ha : ¬ h.arity.allows args.length) :
    b.invoke args = .error (.argumentCount h.name h.arity.text args.length) := by
  have hnone : b.operation.apply args = none := by
    rw [Operation.apply_eq_none_iff]
    exact mt (hs.allows args.length).2 ha
  rw [Builtin.invoke, hnone, hs.name, hs.text]

theorem Serves.invoke_of_allows (hs : h.Serves b) (ha : h.arity.allows args.length) :
    ∃ r, h.run args = .ok r ∧ b.invoke args = r.mapError (.invalidArgument h.name) ∧
      ((∃ details, r = .error details) ↔ Refused h.name args) := by
  obtain ⟨r, hrun, happly, hr⟩ := hs.run args ha
  refine ⟨r, hrun, ?_, hr⟩
  rw [Builtin.invoke, happly, hs.name]
  cases r with
  | error details => rfl
  | ok value => rfl

theorem Serves.invoke_eq (hs : h.Serves b) (args : List Float) :
    h.invoke args = .ok (b.invoke args) := by
  by_cases ha : h.arity.allows args.length
  · obtain ⟨r, hrun, hinvoke, -⟩ := hs.invoke_of_allows ha
    rw [invoke, if_pos ha, hrun, hinvoke]
    rfl
  · rw [invoke, if_neg ha, hs.invoke_of_not_allows ha]

theorem find?_serves {handlers : List Handler} {builtins : List Builtin}
    (h : List.Forall₂ Serves handlers builtins) (name : String) :
    Option.Rel Serves (handlers.find? (·.name == name)) (builtins.find? (·.name == name)) := by
  induction h with
  | nil => exact .none
  | @cons handler builtin _ _ hs _ ih =>
    rw [List.find?_cons, List.find?_cons, hs.name]
    cases builtin.name == name with
    | true => exact .some hs
    | false => exact ih

end Serving

/-- **No call of a builtin faults**, and all come to what the builtin comes to. -/
theorem call_eq (name : String) (args : List Float) :
    call name args = .ok (Builtin.call name args) := by
  have hfind := find?_serves table_serves name
  rw [call, Builtin.call]
  generalize table.find? (·.name == name) = h at hfind ⊢
  generalize Builtin.all.find? (·.name == name) = b at hfind ⊢
  cases hfind with
  | none => rfl
  | some hs => exact hs.invoke_eq args

theorem map_name_table : table.map (·.name) = Builtin.all.map (·.name) := rfl

theorem find?_of_mem {h : Handler} (hmem : h ∈ table) :
    table.find? (·.name == h.name) = some h := by
  have hsome : (table.find? (·.name == h.name)).isSome :=
    List.find?_isSome.2 ⟨h, hmem, beq_self_eq_true h.name⟩
  obtain ⟨g, hg⟩ := Option.isSome_iff_exists.1 hsome
  have hname := List.find?_some hg
  have hnodup : (table.map (·.name)).Nodup := map_name_table ▸ Builtin.nodup_names
  rw [hg, List.inj_on_of_nodup_map hnodup (List.mem_of_find?_eq_some hg) hmem (beq_iff_eq.1 hname)]

theorem exists_serves {h : Handler} (hmem : h ∈ table) :
    ∃ b, h.Serves b ∧ ∀ args, Builtin.call h.name args = b.invoke args := by
  have hfind := find?_serves table_serves h.name
  rw [find?_of_mem hmem] at hfind
  cases hb : Builtin.all.find? (·.name == h.name) with
  | none =>
    rw [hb] at hfind
    cases hfind
  | some b =>
    rw [hb] at hfind
    cases hfind with
    | some hs => exact ⟨b, hs, fun args => by rw [Builtin.call, hb]⟩

end Handler

/-! ## Outcomes -/

theorem Builtin.call_eq_unknownFunction_iff (name : String) (args : List Float) :
    call name args = .error (.unknownFunction name) ↔ name ∉ all.map (·.name) := by
  rw [call]
  cases hfind : all.find? (·.name == name) with
  | none =>
    have hnone : name ∉ all.map (·.name) := by simpa using hfind
    exact ⟨fun _ => hnone, fun _ => rfl⟩
  | some b =>
    have hmem : name ∈ all.map (·.name) :=
      List.mem_map.2 ⟨b, List.mem_of_find?_eq_some hfind, by simpa using List.find?_some hfind⟩
    refine ⟨fun h => ?_, fun h => absurd hmem h⟩
    simp only [invoke] at h
    split at h <;> cases h

/-- **Builtins do not fault, and fail exactly when they should.** No call reads an argument that is
not there or holds a number between bounds that are not in order. It fails for the name if there is
no builtin of it, else for the number of arguments if the builtin does not take it, else for the
bounds of `clamp` if they are a NaN or not in order, and else it has a value. -/
theorem call_outcome (name : String) (args : List Float) :
    let outcome := Builtin.call name args
    Handler.call name args = .ok outcome ∧
    (outcome = .error (.unknownFunction name) ↔ name ∉ Handler.table.map (·.name)) ∧
    ∀ h ∈ Handler.table, h.name = name →
      (outcome = .error (.argumentCount name h.arity.text args.length) ↔
        h.arity.allows args.length = false) ∧
      (h.arity.allows args.length →
        ((∃ details, outcome = .error (.invalidArgument name details)) ↔ Refused name args) ∧
        ((∃ value, outcome = .ok value) ↔ ¬ Refused name args)) := by
  intro outcome
  refine ⟨Handler.call_eq name args, ?_, fun h hmem hname => ?_⟩
  · rw [Handler.map_name_table]
    exact Builtin.call_eq_unknownFunction_iff name args
  · subst hname
    obtain ⟨b, hs, hcall⟩ := Handler.exists_serves hmem
    have houtcome : outcome = b.invoke args := hcall args
    rw [houtcome]
    by_cases ha : h.arity.allows args.length
    · obtain ⟨r, -, hinvoke, hrefused⟩ := hs.invoke_of_allows ha
      rw [hinvoke, ← hrefused]
      cases r with
      | error details => simp [Except.mapError, ha]
      | ok value => simp [Except.mapError, ha]
    · rw [hs.invoke_of_not_allows ha]
      simp [ha]

/-- `clamp` with its bounds the wrong way round, and with a bound missing. -/
theorem call_outcome_clamp :
    let h : Handler := ⟨"clamp", .exactly 3, Handler.clamp⟩
    h ∈ Handler.table ∧ Refused "clamp" [5, 2, 0] ∧
      (∃ details, Builtin.call "clamp" [5, 2, 0] = .error (.invalidArgument "clamp" details)) ∧
      Builtin.call "clamp" [5, 2] = .error (.argumentCount "clamp" "3" 2) := by
  intro h
  have hmem : h ∈ Handler.table := by simp [h, Handler.table]
  have hrefused : Refused "clamp" [5, 2, 0] := ⟨rfl, 5, 2, 0, rfl, .inr (.inr (by decide))⟩
  have hbounds := (call_outcome "clamp" [5, 2, 0]).2.2 h hmem rfl
  have hcount := (call_outcome "clamp" [5, 2]).2.2 h hmem rfl
  exact ⟨hmem, hrefused, (hbounds.2 rfl).1.2 hrefused, hcount.1.2 rfl⟩

/-! ## Installed builtins -/

/-- **A builtin does the same in bindings.** After the builtins are installed, a call of a builtin
by its name comes to what the builtin comes to, with the same value or error. No other name is known
to the builtins, and a call of it comes to what it came to before. -/
theorem call_installed (b : Bindings) (name : String) (args : List Float) :
    if name ∈ Builtin.all.map (·.name) then b.install.call name args = Builtin.call name args
    else Builtin.call name args = .error (.unknownFunction name) ∧
      b.install.call name args = b.call name args := by
  rw [Bindings.call_install]
  split
  next hmem =>
    have hcall := mt (Builtin.call_eq_unknownFunction_iff name args).1 (not_not_intro hmem)
    rw [Builtin.call] at hcall ⊢
    cases hfind : Builtin.all.find? (·.name == name) with
    | none => simp [hfind] at hcall
    | some f => rfl
  next hmem =>
    have hnone : Builtin.all.find? (·.name == name) = none := by simpa using hmem
    rw [hnone]
    exact ⟨(Builtin.call_eq_unknownFunction_iff name args).2 hmem, rfl⟩

end Formula
