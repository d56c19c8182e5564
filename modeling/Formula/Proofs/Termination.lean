import Mathlib
import Formula.Proofs.Attempts
import Formula.Proofs.MachineRuns

/-!
# Reading ends

**`expression_ends`**: on a machine, which knows no reason to end, reading a formula ends from
whatever cursor, and from one nested call or loop round to the next less of the source is ahead.
-/

namespace Formula

/-- **Reading a formula goes on and ends**, wherever the cursor stands.

On a machine with room for the limit of the nesting and for the items ahead it ends after no more
calls inside one another than a multiple of these items: it comes to the outcome and to the cursor
of the formula. The record of nested calls and loop rounds is in good order then, and a success
leaves all of them behind. Every production that succeeds has passed at least one token, and none
moves back, whatever it comes to. -/
theorem expression_ends (limits : Limits) (c : Cursor) :
    (∀ capacity n, limits.depth ≤ capacity → c.unread ≤ capacity → 6 * c.unread + 4 ≤ n →
      ∃ m, Machine.expression capacity limits n ⟨c, 0, []⟩ = .ok ((c.expression limits).1, m) ∧
        m.cursor = (c.expression limits).2 ∧ m.depth = 0 ∧ m.Orderly ∧
        ∀ e, (c.expression limits).1 = .ok e → m.Passed) ∧
    (∀ depth, (∀ l, Progresses c (c.level l limits depth).1) ∧
      Progresses c (c.arguments limits depth).1) ∧
    Progresses c (c.expression limits) :=
  ⟨fun _ _ hlimit hcapacity hn => Machine.ends_expression hlimit hcapacity hn,
    fun depth => ⟨fun l => Cursor.progresses_level l limits depth c,
      Cursor.progresses_arguments limits depth c⟩,
    Cursor.progresses_expression limits c⟩

/-- A failed call has taken the first token, and the next one has moved behind the bad text. From
there a formula of nine tokens is read, with all limits as great as 64 bits allow. -/
theorem expression_ends_past_bad_text :
    let limits : Limits := ⟨18446744073709551615, 18446744073709551615⟩
    let first : Cursor := ⟨some (.name "a"), 0, [⟨.bad "@", 1⟩, ⟨.token (.name "f"), 2⟩,
      ⟨.token .openParen, 3⟩, ⟨.token (.name "x"), 4⟩, ⟨.token .comma, 5⟩, ⟨.token .minus, 6⟩,
      ⟨.token (.name "y"), 7⟩, ⟨.token .closeParen, 8⟩, ⟨.token .star, 9⟩,
      ⟨.token (.name "z"), 10⟩], 11⟩
    let c := (first.run [.take, .advance]).2
    let tree : Expr := .binary .mul (.call "f" [.var "x", .neg (.var "y")]) (.var "z")
    Cursor.ofSource "a@f(x,-y)*z" = .ok first ∧ first.take.1 = .error ⟨"@", 1⟩ ∧
      ∃ m, Machine.expression 18446744073709551615 limits 58 ⟨c, 0, []⟩ = .ok (.ok tree, m) ∧
        m.Orderly ∧ m.Passed := by
  intro limits first c tree
  have hfirst : Cursor.ofSource "a@f(x,-y)*z" = .ok first := by cbv
  have hread : (c.expression limits).1 = .ok tree := by cbv
  obtain ⟨m, hrun, -, -, horderly, hpassed⟩ :=
    (expression_ends limits c).1 18446744073709551615 58 (by decide) (by decide) (by decide)
  rw [hread] at hrun hpassed
  exact ⟨hfirst, rfl, m, hrun, horderly, hpassed tree rfl⟩

/-- A nested call stands behind a move, and the loop over operators goes into a round on the first
of them. -/
example :
    let x : Cursor := ⟨some (.name "x"), 1, [⟨.token .star, 2⟩, ⟨.token (.name "y"), 3⟩], 4⟩
    let star : Cursor := ⟨some .star, 2, [⟨.token (.name "y"), 3⟩], 4⟩
    let y : Cursor := ⟨some (.name "y"), 3, [], 4⟩
    (Machine.expression 8 {} 28 ⟨⟨some .minus, 0, ⟨.token (.name "x"), 1⟩ :: x.rest, 4⟩, 0, []⟩).map
        (·.2.log) =
      .ok [.moved ⟨none, 4, [], 4⟩, .moved y, .round star, .moved star, .nested x, .moved x] := rfl

end Formula
