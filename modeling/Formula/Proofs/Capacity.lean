import Mathlib
import Formula.Proofs.Attempts
import Formula.Proofs.MachineRuns
import Formula.Proofs.Positions

/-!
# Heights and the capacity

Heights are counted while a formula is read. They are the true heights of the trees, and neither
they nor the nesting outgrow the source.

* `TrueHeight`: a height that is said of what is read, and the tokens it is read from.
* `Cursor.unread_run_le`: whatever calls have driven a cursor, no more items are ahead than the
  source has bytes.
* **`heights_true`**: the heights are true, and a machine with room for the length of the source is
  never stopped.
-/

namespace Formula

/-- What is read from `c` up to `d` is as high as it is said to be, within the limit, and no higher
than the tokens passed are many. -/
structure TrueHeight (limits : Limits) (c d : Cursor) (height trueHeight : Nat) : Prop where
  eq : height = trueHeight
  le : height ≤ limits.height
  passed : ∃ ts, c.Passes ts d ∧ height ≤ ts.length

theorem Measured.trueHeight {limits : Limits} {c d : Cursor} {height trueHeight : Nat}
    {ts : List Token} (h : Measured limits c.unread height trueHeight d.unread)
    (hts : c.Passes ts d) : TrueHeight limits c d height trueHeight := by
  refine ⟨h.eq, h.le, ts, hts, ?_⟩
  have := h.passed
  have := hts.unread_eq
  omega

theorem Expr.heights_eq_foldr (es : List Expr) :
    Expr.heights es = (es.map Expr.height).foldr max 0 := by
  induction es with
  | nil => rfl
  | cons e es ih => rw [heights, ih, List.map_cons, List.foldr_cons]

namespace Cursor

/-! ## Items ahead of a cursor that calls have driven -/

theorem unread_advance_le (c : Cursor) : c.advance.2.unread ≤ c.unread := by
  cases ht : c.token with
  | some t => exact Nat.le_of_lt (unread_advance_lt (by rw [ht]; rfl))
  | none =>
    unfold advance
    split
    next hr => simp [unread, hr]
    next hr => simp [unread, hr, ht]
    next hr => simp [unread, hr, ht]

theorem unread_call_le (c : Cursor) (call : Call) : (call.run c).2.unread ≤ c.unread := by
  have htake : c.take.2.unread ≤ c.unread := by
    refine Nat.le_trans (unread_advance_le { c with token := none }) ?_
    exact Nat.le_add_right _ _
  cases call with
  | advance => exact unread_advance_le c
  | take => exact htake
  | next =>
    show c.next?.2.unread ≤ c.unread
    unfold next?
    split
    next => exact Nat.le_refl _
    next => exact htake

theorem unread_run_le (c : Cursor) (calls : List Call) : (c.run calls).2.unread ≤ c.unread := by
  induction calls generalizing c with
  | nil => exact Nat.le_refl _
  | cons call calls ih => exact Nat.le_trans (ih _) (unread_call_le c call)

theorem unread_le_utf8ByteSize {source : String} {c : Cursor} (hc : ofSource source = .ok c)
    (calls : List Call) : (c.run calls).2.unread ≤ source.utf8ByteSize := by
  have hfirst : c.unread ≤ (before source).unread := by
    have hmove := unread_advance_le (before source)
    rwa [advance_of_ofSource hc] at hmove
  calc (c.run calls).2.unread
      ≤ c.unread := unread_run_le c calls
    _ ≤ (Item.ofSource source).length := hfirst
    _ ≤ source.utf8ByteSize := Item.length_ofSource_le source

end Cursor

/-- **Heights are true heights, and nothing overflows.** At every depth, the tree of an operand, of
a product or of a sum that is read is as high as it is said to be, within the limit, and no higher
than the tokens it is read from are many; the height said of arguments is the greatest of theirs,
`0` for none. So a machine whose greatest number is no less than the length of the source and the
limit of the nesting is never stopped by a sum, wherever calls have driven the cursor and whatever
the limit of the heights is: it comes to what the productions come to without a machine. -/
theorem heights_true (limits : Limits) :
    (∀ (depth : Nat) (c : Cursor),
      (∀ l tree d, (c.level l limits depth).1 = (.ok tree, d) →
        TrueHeight limits c d tree.height tree.expr.height) ∧
      ∀ es height d, (c.arguments limits depth).1 = (.ok (es, height), d) →
        TrueHeight limits c d height ((es.map Expr.height).foldr max 0)) ∧
    ∀ (source : String) (first : Cursor) (calls : List Cursor.Call) (capacity depth n : Nat),
      Cursor.ofSource source = .ok first → source.utf8ByteSize ≤ capacity →
        limits.depth ≤ capacity → 6 * source.utf8ByteSize + 6 ≤ n →
          let c := (first.run calls).2
          (∀ l, Machine.Completes (Machine.level capacity limits l n) ⟨c, depth, []⟩
            (c.level l limits depth).1) ∧
          Machine.Completes (Machine.arguments capacity limits n) ⟨c, depth, []⟩
            (c.arguments limits depth).1 := by
  refine ⟨fun depth c => ⟨fun l tree d h => ?_, fun es height d h => ?_⟩, ?_⟩
  · obtain ⟨ts, hts⟩ := Cursor.level_passes h
    exact (Cursor.measured_level h).trueHeight hts
  · obtain ⟨ts, hts⟩ := Cursor.arguments_passes h
    rw [← Expr.heights_eq_foldr]
    exact (Cursor.measured_arguments h).trueHeight hts
  · intro source first calls capacity depth n hfirst hcapacity hlimit hn c
    have hahead : c.unread ≤ source.utf8ByteSize := Cursor.unread_le_utf8ByteSize hfirst calls
    obtain ⟨-, hlevel, -, harguments, -⟩ := Machine.ends hlimit
    refine ⟨fun l => ?_, ?_⟩
    · have hrank : l.rank ≤ 2 := by cases l <;> decide
      exact hlevel l depth c _ rfl rfl (Machine.orderly_start c depth) (by omega) n (by omega)
    · exact harguments depth c _ rfl rfl (Machine.orderly_start c depth) (by omega) n (by omega)

/-- Behind bad text and at depth three, with all limits and the capacity as great as 64 bits allow,
the negated call is three high, which is less than the five tokens it is read from. -/
theorem heights_true_at_greatest_limits :
    let limits : Limits := ⟨18446744073709551615, 18446744073709551615⟩
    let first : Cursor := ⟨some (.name "a"), 0, [⟨.bad "@", 1⟩, ⟨.token .minus, 2⟩,
      ⟨.token (.name "f"), 3⟩, ⟨.token .openParen, 4⟩, ⟨.token (.name "x"), 5⟩,
      ⟨.token .closeParen, 6⟩], 7⟩
    let c := (first.run [.take, .advance]).2
    let d : Cursor := ⟨none, 7, [], 7⟩
    let tree : Expr := .neg (.call "f" [.var "x"])
    Cursor.ofSource "a@-f(x)" = .ok first ∧
      (c.level .sum limits 3).1 = (.ok ⟨tree, 3⟩, d) ∧ TrueHeight limits c d 3 tree.height ∧
        Machine.Completes (Machine.level 18446744073709551615 limits .sum 48) ⟨c, 3, []⟩
          (.ok ⟨tree, 3⟩, d) := by
  intro limits first c d tree
  have hfirst : Cursor.ofSource "a@-f(x)" = .ok first := by cbv
  have hread : (c.level .sum limits 3).1 = (.ok ⟨tree, 3⟩, d) := by cbv
  obtain ⟨hheights, hmachine⟩ := heights_true limits
  have hsum := (hmachine "a@-f(x)" first [.take, .advance] 18446744073709551615 3 48 hfirst
    (by decide) (by decide) (by decide)).1 .sum
  rw [hread] at hsum
  exact ⟨hfirst, hread, (hheights 3 c).1 .sum _ d hread, hsum⟩

/-- A machine that has no number above one is stopped by the height of a product. -/
example : Machine.level 1 {} .sum 22
    ⟨⟨some (.name "x"), 0, [⟨.token .star, 1⟩, ⟨.token (.name "y"), 2⟩], 3⟩, 0, []⟩ =
      .error .overflow := rfl

end Formula
