import Mathlib
import Formula.Proofs.Boundary
import Formula.Proofs.Reuse

/-!
# Reading the rest of a text

A cursor that has moved on is a fresh cursor on the rest of the source, but for the positions, which
are counted from the start of the source.

* `Cursor.advanced`: the cursor some moves further on, if no move fails.
* `Cursor.Stands.advanced`: it stands on the items behind those that it has moved over.
* `exists_fresh`: it is the fresh cursor with all positions moved on.
* **`expression_advanced`**: it reads what is read from the rest.
-/

namespace Formula

namespace Cursor

variable {c d : Cursor} {items : List Item}

/-- The cursor `k` moves further on, or the failure of the first move that fails. -/
def advanced (c : Cursor) : Nat → Except LexicalError Cursor
  | 0 => .ok c
  | k + 1 =>
    match c.advance with
    | (.ok _, d) => d.advanced k
    | (.error e, _) => .error e

theorem Stands.advanced {k : Nat} (h : c.Stands items) (hd : c.advanced k = .ok d) :
    d.Stands (items.drop k) ∧ d.finish = c.finish := by
  induction k generalizing c items with
  | zero =>
    cases hd
    exact ⟨h, rfl⟩
  | succ k ih =>
    rw [Cursor.advanced] at hd
    split at hd
    next f hf =>
      obtain ⟨hf, hfinish⟩ := stands_of_advance_ok hf
      rw [h.rest] at hf
      obtain ⟨hd, hfinish'⟩ := ih hf hd
      rw [List.drop_tail] at hd
      exact ⟨hd, hfinish'.trans hfinish⟩
    next => cases hd

theorem Stands.exists_relocate {f : Nat → Nat} {n : Nat}
    (h : d.Stands (items.map (Item.relocate f))) (hd : d.finish = f n) :
    ∃ c : Cursor, c.Stands items ∧ c.finish = n ∧ d = c.relocate f := by
  have hmove := advance_relocate f ⟨none, 0, items, n⟩
  rw [advance_of_stands (c := relocate f ⟨none, 0, items, n⟩) h hd] at hmove
  cases hc : advance ⟨none, 0, items, n⟩ with
  | mk outcome c =>
    rw [hc] at hmove
    cases outcome with
    | error e => cases hmove
    | ok =>
      obtain ⟨hstands, hfinish⟩ := stands_of_advance_ok hc
      exact ⟨c, hstands, hfinish, (Prod.mk.inj hmove).2⟩

end Cursor

/-- **A cursor that has moved on is a fresh cursor on the rest**, with all positions moved on. -/
theorem exists_fresh {source : String} {c d : Cursor} {k : Nat}
    (hc : Cursor.ofSource source = .ok c) (hd : c.advanced k = .ok d) :
    ∃ front back : String, source = front ++ back ∧ front.utf8ByteSize = d.position ∧
      ∃ fresh, Cursor.ofSource back = .ok fresh ∧ d = fresh.relocate (· + d.position) := by
  obtain ⟨hstands, hfinish⟩ := Cursor.ofSource_eq_ok hc
  obtain ⟨front, back, hsource, -, hback, hhead⟩ := exists_parts source k
  obtain ⟨hd, hend⟩ := hstands.advanced hd
  have hlength : d.finish = byteLength back + byteLength front := by
    rw [hend, hfinish, ← byteLength_toList, hsource, byteLength_append, Nat.add_comm]
  rw [cuts_iff.1 hback] at hd
  have hposition : d.position = byteLength front := by
    rw [hd.head.2, hlength, Nat.add_comm]
    exact Item.positionOf_ofChars hhead _
  have hmoved := ofChars_add (byteLength front) 0 back
  rw [Nat.zero_add] at hmoved
  rw [hmoved] at hd
  obtain ⟨fresh, hfresh, hlast, heq⟩ := hd.exists_relocate hlength
  refine ⟨.ofList front, .ofList back, ?_, ?_, fresh, ?_, hposition ▸ heq⟩
  · rw [← String.ofList_append, ← hsource, String.ofList_toList]
  · rw [hposition, ← byteLength_toList, String.toList_ofList]
  · refine Cursor.ofSource_of_stands ?_ ?_
    · rwa [Item.ofSource, String.toList_ofList]
    · rw [hlast, ← byteLength_toList, String.toList_ofList]

/-- **Reading from a cursor that has moved on is reading the rest of the text.** The source is
parted where the cursor stands. A reader there comes to the tree of the rest, or to its error, whose
position is moved on by that of the cursor. -/
theorem expression_advanced {source : String} {c d : Cursor} {k : Nat}
    (hc : Cursor.ofSource source = .ok c) (hd : c.advanced k = .ok d) (limits : Limits) :
    ∃ front back : String, source = front ++ back ∧ front.utf8ByteSize = d.position ∧
      (Reader.mk d limits 0 []).expression.1 =
        (parse back limits).mapError (ParseError.relocate (· + d.position)) := by
  obtain ⟨front, back, hsource, hlength, fresh, hfresh, heq⟩ := exists_fresh hc hd
  have hread : (Reader.mk d limits 0 []).expression.1 = (d.expression limits).1 :=
    (Reader.counts_expression (r := ⟨d, limits, 0, []⟩) rfl).outcome
  refine ⟨front, back, hsource, hlength, ?_⟩
  rw [hread, parse_eq_expression hfresh]
  conv_lhs => rw [heq, Cursor.expression_relocate]

/-- Behind a wide blank and an operator the group is not closed, and the end is where it is in the
whole source. -/
theorem expression_advanced_in_group :
    let c : Cursor := ⟨some (.name "a"), 0,
      [⟨.token .star, 4⟩, ⟨.token .openParen, 5⟩, ⟨.token (.name "x"), 6⟩], 7⟩
    let d : Cursor := ⟨some .openParen, 5, [⟨.token (.name "x"), 6⟩], 7⟩
    Cursor.ofSource "a\u3000*(x" = .ok c ∧ c.advanced 2 = .ok d ∧
      parse "(x" = .error (.expectedClosing 2) ∧
        (Reader.mk d {} 0 []).expression.1 = .error (.expectedClosing 7) := by
  intro c d
  have hc : Cursor.ofSource "a\u3000*(x" = .ok c := by cbv
  have hd : c.advanced 2 = .ok d := rfl
  have hrest : parse "(x" = .error (.expectedClosing 2) := by cbv
  obtain ⟨front, back, hsource, hlength, hread⟩ := expression_advanced hc hd {}
  have htext : front.toList ++ back.toList = ['a', '\u3000', '*'] ++ ['(', 'x'] := by
    rw [← String.toList_append, ← hsource]
    decide
  obtain ⟨-, hback⟩ := append_inj_of_byteLength htext ((byteLength_toList front).trans hlength)
  obtain rfl : back = "(x" := String.toList_injective hback
  refine ⟨hc, hd, hrest, ?_⟩
  rw [hread, hrest]
  rfl

end Formula
