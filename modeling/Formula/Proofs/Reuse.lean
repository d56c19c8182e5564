import Mathlib
import Formula.Proofs.Attempts
import Formula.Proofs.Counting
import Formula.Proofs.Productions
import Formula.Proofs.Simulation

/-!
# Readers that are asked again

Whatever a reader has come to, it goes on as a fresh one would from where its cursor stands.

* `Reader.after`: a reader behind some formulas that it was asked for.
* `Reader.counts_expression`: a formula of a reader that is not nested.
* `Cursor.expression_end`, `Cursor.end_of_expression`: asking at the end of the source, and how a
  formula leads there.
* **`reader_reusable`**: the law.
-/

namespace Formula

namespace Reader

variable {r : Reader}

/-- The reader behind `n` formulas that it was asked for, whatever they have come to. -/
def after (r : Reader) : Nat → Reader
  | 0 => r
  | n + 1 => (r.after n).expression.2

/-- A reader that is not nested comes to `p` and is not nested behind it. -/
structure Resets (r : Reader) (o : Except ParseError Expr × Reader)
    (p : Except ParseError Expr × Cursor) : Prop where
  outcome : o.1 = p.1
  cursor : o.2.cursor = p.2
  limits : o.2.limits = r.limits
  depth : o.2.depth = 0
  trail : ∃ values, o.2.trail = values ++ r.trail ∧ ∀ n ∈ values, n ≤ r.limits.depth

theorem counts_expression (h : r.depth = 0) :
    r.Resets r.expression (r.cursor.expression r.limits) := by
  have hlevel : (r.level .sum).Counts (r.cursor.level .sum r.limits r.depth) :=
    counts.2.1 .sum r.depth r.cursor r rfl rfl
  rw [h] at hlevel
  unfold expression Cursor.expression
  generalize r.level .sum = o at hlevel
  generalize r.cursor.level .sum r.limits 0 = p at hlevel
  obtain ⟨⟨outcome, s⟩, hs⟩ := o
  obtain ⟨⟨_, _⟩, _⟩ := p
  obtain ⟨rfl, rfl, hlimits, hdepth, htrail⟩ := hlevel
  cases outcome with
  | error e => exact ⟨rfl, rfl, hlimits, hdepth.trans h, htrail⟩
  | ok tree =>
    have hs : r.Resets (.ok tree.expr, s) (.ok tree.expr, s.cursor) :=
      ⟨rfl, rfl, hlimits, hdepth.trans h, htrail⟩
    obtain ⟨⟨token, position, rest, finish⟩, limits, depth, trail⟩ := s
    cases token with
    | none => exact hs
    | some t => exact ⟨rfl, rfl, hs.limits, hs.depth, hs.trail⟩

theorem parse_eq_expression {source : String} {c : Cursor} (hc : Cursor.ofSource source = .ok c)
    (limits : Limits) : parse source limits = (Reader.mk c limits 0 []).expression.1 := by
  rw [Formula.parse_eq_expression hc]
  exact (counts_expression (r := ⟨c, limits, 0, []⟩) rfl).outcome.symm

end Reader

/-! ## The end of the source -/

namespace Cursor

variable {c d : Cursor} {ts : List Token} {limits : Limits}

theorem Passes.position_of_none (h : c.Passes ts d) (hts : ts ≠ []) (hd : d.token = none) :
    d.position = c.finish := by
  induction h with
  | refl => exact (hts rfl).elim
  | @step c f d t ts ht hf h ih =>
    obtain ⟨hstands, hfinish⟩ := stands_of_advance_ok hf
    cases ts with
    | nil =>
      cases h
      have hhead := hstands.head
      rw [hd] at hhead
      have hrest : c.rest = [] := by simpa using hhead.1.symm
      rw [hhead.2, hrest]
      exact hfinish
    | cons t ts => exact (ih (List.cons_ne_nil t ts) hd).trans hfinish

theorem expression_end (h : c.token = none) (limits : Limits) :
    c.expression limits = (.error (.unexpectedEnd c.position), c) := by
  have hlevel : c.level .sum limits 0 = .stay c (.error (.unexpectedEnd c.position)) := by
    rw [level_joined (by decide), Level.below, level_joined (by decide), Level.below, level_operand,
      operand_none h]
    rfl
  rw [expression, hlevel]
  rfl

theorem end_of_expression {e : Expr} (h : c.expression limits = (.ok e, d)) :
    d.token = none ∧ d.position = c.finish := by
  have hread := (reads limits).2.1 .sum 0 c (Nat.zero_le _)
  unfold expression at h
  generalize c.level .sum limits 0 = r at h hread
  obtain ⟨⟨_ | t, f⟩, hf⟩ := r
  · cases h
  · cases ht : f.token with
    | some u => simp [ht] at h
    | none =>
      simp only [ht, Prod.mk.injEq] at h
      obtain ⟨-, rfl⟩ := h
      obtain ⟨ts, hts, hb, -⟩ := hread
      exact ⟨ht, hts.position_of_none (by simpa using hb.ne_nil) ht⟩

theorem finish_advance (c : Cursor) : c.advance.2.finish = c.finish := by
  unfold advance
  split <;> rfl

theorem finish_expression (limits : Limits) (c : Cursor) :
    (c.expression limits).2.finish = c.finish :=
  expression_keeps (fun c d => d.finish = c.finish) (fun _ => rfl)
    (fun _ _ _ h h' => h'.trans h) finish_advance limits c

theorem finish_run {source : String} (h : ofSource source = .ok c) (calls : List Call) :
    (c.run calls).2.finish = source.utf8ByteSize := by
  have hbefore : (before source).Awaits source 0 := ⟨rfl, rfl⟩
  have hc : c.Awaits source 1 := by simpa [advance_of_ofSource h] using hbefore.advance.2
  exact (hc.run calls).2.finish

end Cursor

/-! ## Readers behind some formulas -/

namespace Reader

/-- A reader behind some formulas is not nested, and has never been so too deeply. It is in the same
source as before. -/
theorem after_fresh (c : Cursor) (limits : Limits) (n : Nat) :
    let r := (Reader.mk c limits 0 []).after n
    r.limits = limits ∧ r.depth = 0 ∧ (∀ m ∈ r.trail, m ≤ limits.depth) ∧
      r.cursor.finish = c.finish := by
  induction n with
  | zero => exact ⟨rfl, rfl, by simp [after], rfl⟩
  | succ n ih =>
    obtain ⟨hlimits, hdepth, htrail, hfinish⟩ := ih
    obtain ⟨-, hcursor, hlimits', hdepth', values, htrail', hvalues⟩ := counts_expression hdepth
    refine ⟨hlimits'.trans hlimits, hdepth', fun m hm => ?_, ?_⟩
    · rw [after, htrail'] at hm
      rcases List.mem_append.1 hm with hm | hm
      · exact hlimits ▸ hvalues m hm
      · exact htrail m hm
    · rw [after, hcursor, ← hfinish]
      exact Cursor.finish_expression ..

theorem after_end {r : Reader} (hdepth : r.depth = 0) (h : r.cursor.token = none) (m : Nat) :
    (r.after m).cursor = r.cursor ∧ (r.after m).depth = 0 := by
  induction m with
  | zero => exact ⟨rfl, hdepth⟩
  | succ m ih =>
    obtain ⟨hcursor, hdepth⟩ := ih
    obtain ⟨-, hcursor', -, hdepth', -⟩ := counts_expression hdepth
    rw [hcursor, Cursor.expression_end h] at hcursor'
    exact ⟨hcursor', hdepth'⟩

end Reader

/-- **A reader can be asked again.** Make a reader on the cursor of a source, wherever calls have
moved that, and ask it for `n` formulas, whatever they come to. It is not nested, its depth has
never been beyond the limit, and it goes on as a fresh reader does on its cursor. Behind a formula
there is nothing more. The reason is that every nested part, at any reader, leaves the depth as it
was. -/
theorem reader_reusable {source : String} {c : Cursor} (hc : Cursor.ofSource source = .ok c)
    (calls : List Cursor.Call) (limits : Limits) (n : Nat) :
    let r := (Reader.mk (c.run calls).2 limits 0 []).after n
    let fresh := Reader.mk r.cursor limits 0 []
    r.depth = 0 ∧ (∀ m ∈ r.trail, m ≤ limits.depth) ∧
      (r.expression.1 = fresh.expression.1 ∧ r.expression.2.cursor = fresh.expression.2.cursor) ∧
      (∀ e, r.expression.1 = .ok e → ∀ m,
        (r.expression.2.after m).expression.1 = .error (.unexpectedEnd source.utf8ByteSize)) ∧
      ∀ s : Reader, (s.nested fun s _ => s.operand).1.2.depth = s.depth ∧
        (s.nested fun s _ => s.level .sum).1.2.depth = s.depth ∧
        (s.nested fun s _ => s.arguments).1.2.depth = s.depth := by
  intro r fresh
  obtain ⟨hlimits, hdepth, htrail, hfinish⟩ := Reader.after_fresh (c.run calls).2 limits n
  have hr := Reader.counts_expression hdepth
  have hfresh := Reader.counts_expression (r := fresh) rfl
  rw [hlimits] at hr
  refine ⟨hdepth, htrail, ⟨?_, ?_⟩, fun e he m => ?_, fun s => ⟨?_, ?_, ?_⟩⟩
  · exact hr.outcome.trans hfresh.outcome.symm
  · exact hr.cursor.trans hfresh.cursor.symm
  · obtain ⟨houtcome, hcursor, -, hdepth', -⟩ := hr
    have hexp : r.cursor.expression limits = (.ok e, r.expression.2.cursor) :=
      Prod.ext (houtcome.symm.trans he) hcursor.symm
    obtain ⟨hnone, hposition⟩ := Cursor.end_of_expression hexp
    obtain ⟨hend, hzero⟩ := Reader.after_end hdepth' hnone m
    rw [(Reader.counts_expression hzero).outcome, hend, Cursor.expression_end hnone, hposition,
      hfinish, Cursor.finish_run hc]
  · exact Reader.depth_nested Reader.counts.1 s
  · exact Reader.depth_nested (Reader.counts.2.1 .sum) s
  · exact Reader.depth_nested Reader.counts.2.2.2.1 s

/-- The second parenthesis is one too many. The reader then goes on behind it, reads the name and is
at the end. -/
theorem reader_reusable_too_deep :
    let c : Cursor := ⟨some .openParen, 0, [⟨.token .openParen, 1⟩, ⟨.token (.name "a"), 2⟩], 3⟩
    let r := Reader.mk c ⟨1, 8⟩ 0 []
    Cursor.ofSource "((a" = .ok c ∧ r.expression.1 = .error (.nestingTooDeep 1 2) ∧
      (r.after 1).depth = 0 ∧ (r.after 1).expression.1 = .ok (.var "a") ∧
      ∀ m, ((r.after 1).expression.2.after m).expression.1 = .error (.unexpectedEnd 3) := by
  intro c r
  have hc : Cursor.ofSource "((a" = .ok c := by cbv
  have hdeep : r.expression.1 = .error (.nestingTooDeep 1 2) := by cbv
  have hname : (r.after 1).expression.1 = .ok (.var "a") := by cbv
  obtain ⟨hdepth, -, -, hend, -⟩ := reader_reusable hc [] ⟨1, 8⟩ 1
  exact ⟨hc, hdeep, hdepth, hname, hend _ hname⟩

end Formula
