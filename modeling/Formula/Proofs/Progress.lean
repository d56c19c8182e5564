import Mathlib.Tactic.SplitIfs
import Formula.Proofs.Heights
import Formula.Proofs.Passage
import Formula.Proofs.Simulation

/-!
# Progress

* `Cursor.Passes.unread_eq`: passing tokens lessens what is ahead, by one for each.
* `Progresses`: a success has passed at least one token, and no outcome leaves the cursor behind.
* **`Cursor.progresses_level`**, `Cursor.progresses_arguments`, `Cursor.progresses_expression`: all
  productions have it.
-/

namespace Formula

theorem Expr.height_pos (e : Expr) : 0 < e.height := by
  cases e <;> rw [height] <;> omega

/-- What is read from `c` has passed at least one token if it is a success, and does not move back,
whatever it has come to. -/
structure Progresses {α : Type} (c : Cursor) (r : Except ParseError α × Cursor) : Prop where
  passed : ∀ a d, r = (.ok a, d) → ∃ ts, ts ≠ [] ∧ c.Passes ts d
  suffix : r.2.rest <:+ c.rest
  unread : r.2.unread ≤ c.unread

namespace Reading

variable {c d : Cursor} {α : Type} {r : Reading c α} {P : α → Cursor → Prop}

theorem Yields.of_ok {Q : ParseError → Prop} {a : α} (h : r.Yields P Q) (hr : r.1 = (.ok a, d)) :
    P a d := by
  unfold Yields at h
  rw [hr] at h
  exact h

theorem yields_of_ok (h : ∀ a d, r.1 = (.ok a, d) → P a d) : r.Yields P fun _ => True := by
  unfold Yields
  split
  next hr => exact h _ _ hr
  next => trivial

theorem unread_le_of_ok {a : α} (h : r.1 = (.ok a, d)) : d.unread ≤ c.unread := by
  have hle := r.2
  rwa [h] at hle

end Reading

/-- A run beside itself. If it is a success, it has passed the tokens up to where it ends. -/
def passing (limits : Limits) : Simulation limits limits where
  Near c c' := c = c'
  Agree {c _ _} r _ := r.Yields (fun _ d => ∃ ts, c.Passes ts d) fun _ => True
  token h := by rw [h]
  ok _ _ := ⟨[], .refl _⟩
  mark _ _ := trivial
  nested _ h := .nested (fun _ => h) fun _ => trivial
  height := by
    rintro c _ α r r' height rfl h
    split_ifs
    · trivial
    · exact h
  past := by
    rintro _ c α h h' k k' rfl hk
    obtain ⟨t, ht⟩ := Option.isSome_iff_exists.1 h
    refine .past (fun d hd hmove => ?_) fun _ _ _ => trivial
    exact (hk d d hd hd rfl).mono (fun _ _ h => h.imp' (t :: ·) fun _ => .step ht hmove) fun _ => id
  andThen := by
    rintro c _ α β r r' k k' rfl h hk
    refine .andThen h fun a d hd hpassed => ?_
    obtain ⟨ts, hts⟩ := hpassed
    exact (hk a d d hd hd rfl).mono (fun _ _ h => h.imp' (ts ++ ·) fun _ => hts.trans) fun _ => id

namespace Cursor

variable {limits : Limits} {depth : Nat} {l : Level} {c d e : Cursor} {α : Type}

/-! ## What is ahead -/

theorem unread_of_advance_ok (ht : c.token.isSome) (hd : c.advance = (.ok (), d)) :
    c.unread = d.unread + 1 := by
  rw [(stands_of_advance_ok hd).1.unread, unread, if_pos ht]

theorem Passes.unread_eq {ts : List Token} (h : c.Passes ts d) :
    c.unread = ts.length + d.unread := by
  induction h with
  | refl c => exact (Nat.zero_add _).symm
  | @step c d e t ts ht hd _ ih =>
    have hstep := unread_of_advance_ok (by rw [ht]; rfl) hd
    rw [List.length_cons]
    omega

theorem Passes.ne_nil_of_lt {ts : List Token} (h : c.Passes ts d) (hlt : d.unread < c.unread) :
    ts ≠ [] := by
  rintro rfl
  have := h.unread_eq
  rw [List.length_nil] at this
  omega

theorem rest_advance_suffix (c : Cursor) : c.advance.2.rest <:+ c.rest := by
  unfold advance
  split
  next => exact List.suffix_refl _
  next hr =>
    rw [hr]
    exact List.suffix_cons _ _
  next hr =>
    rw [hr]
    exact List.suffix_cons _ _

/-- No move of a reading leads back. -/
def staying (limits : Limits) : Simulation limits limits :=
  @keeping (fun c d => d.rest <:+ c.rest) (fun _ => List.suffix_refl _)
    (fun _ _ _ hd he => he.trans hd) rest_advance_suffix limits

/-! ## Productions -/

theorem level_passes {t : Subtree} (h : (c.level l limits depth).1 = (.ok t, d)) :
    ∃ ts, c.Passes ts d :=
  ((passing limits).productions.2.1 l depth c c rfl).of_ok h

theorem arguments_passes {found : List Expr × Nat}
    (h : (c.arguments limits depth).1 = (.ok found, d)) : ∃ ts, c.Passes ts d :=
  ((passing limits).productions.2.2.2.1 depth c c rfl).of_ok h

theorem measured_level {t : Subtree} (h : (c.level l limits depth).1 = (.ok t, d)) :
    Measured limits c.unread t.height t.expr.height d.unread :=
  ((measures limits).2.1 l depth c).of_ok h

theorem measured_arguments {found : List Expr × Nat}
    (h : (c.arguments limits depth).1 = (.ok found, d)) :
    Measured limits c.unread found.2 (Expr.heights found.1) d.unread :=
  ((measures limits).2.2.2.1 depth c).of_ok h

theorem unread_level_lt {t : Subtree} (h : (c.level l limits depth).1 = (.ok t, d)) :
    d.unread < c.unread := by
  have hm := measured_level h
  have := hm.passed
  have := t.expr.height_pos
  rw [← hm.eq] at this
  omega

theorem unread_arguments_lt {found : List Expr × Nat}
    (h : (c.arguments limits depth).1 = (.ok found, d)) : d.unread < c.unread := by
  suffices hy : (c.arguments limits depth).Yields (fun _ d => d.unread < c.unread) fun _ => True
    from hy.of_ok h
  rw [arguments]
  split_ifs with ht
  · exact .past (fun d hd _ => hd) fun _ _ _ => trivial
  · -- the first argument passes a token, and what follows it does not move back
    rw [someArguments]
    refine .andThen (Reading.yields_of_ok fun _ _ => unread_level_lt) fun first d _ hd => ?_
    exact Reading.yields_of_ok fun _ f hf => Nat.lt_of_le_of_lt (Reading.unread_le_of_ok hf) hd

/-- **A formula of a level that is read has passed at least one token**, and it does not move
back. -/
theorem progresses_level (l : Level) (limits : Limits) (depth : Nat) (c : Cursor) :
    Progresses c (c.level l limits depth).1 where
  passed t d h := by
    obtain ⟨ts, hts⟩ := level_passes h
    exact ⟨ts, hts.ne_nil_of_lt (unread_level_lt h), hts⟩
  suffix := (staying limits).productions.2.1 l depth c c rfl
  unread := (c.level l limits depth).2

/-- **So do arguments that are read.** -/
theorem progresses_arguments (limits : Limits) (depth : Nat) (c : Cursor) :
    Progresses c (c.arguments limits depth).1 where
  passed found d h := by
    obtain ⟨ts, hts⟩ := arguments_passes h
    exact ⟨ts, hts.ne_nil_of_lt (unread_arguments_lt h), hts⟩
  suffix := (staying limits).productions.2.2.2.1 depth c c rfl
  unread := (c.arguments limits depth).2

/-- **So does a formula up to the end of the source.** -/
theorem progresses_expression (limits : Limits) (c : Cursor) :
    Progresses c (c.expression limits) := by
  rw [expression_eq_whole]
  refine ⟨fun e d h => ?_, (staying limits).whole (c := c) rfl, (c.whole limits).2⟩
  suffices hy : (c.whole limits).Yields (fun _ d => ∃ ts, ts ≠ [] ∧ c.Passes ts d) fun _ => True
    from hy.of_ok h
  refine .andThen (Reading.yields_of_ok (progresses_level .sum limits 0 c).passed) ?_
  intro tree d _ hd
  split
  · exact hd
  · trivial

end Cursor

end Formula
