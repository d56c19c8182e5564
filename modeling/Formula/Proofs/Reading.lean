import Formula.Parse

/-!
# What readings yield

A statement on a production is one on the tree that it yields with the cursor that it leaves, and
one on the errors that it fails with. Each way of building a reading has one rule.

* `Reading.Yields`: the statement.
* **`Reading.Yields.andThen`**, **`Reading.Yields.past`**, `Reading.Yields.nested`, `yields_accept`,
  `Reading.Yields.closing`: the rules.
-/

namespace Formula

namespace Reading

variable {c d : Cursor} {α β : Type}

/-- A success has `P`, together with the cursor that it leaves, and an error has `Q`. -/
def Yields (r : Reading c α) (P : α → Cursor → Prop) (Q : ParseError → Prop) : Prop :=
  match r.1 with
  | (.ok a, d) => P a d
  | (.error e, _) => Q e

variable {P P' : α → Cursor → Prop} {Q Q' : ParseError → Prop}

theorem Yields.mono {r : Reading c α} (h : r.Yields P Q) (hP : ∀ a d, P a d → P' a d)
    (hQ : ∀ e, Q e → Q' e) : r.Yields P' Q' := by
  obtain ⟨⟨a | e, d⟩, hd⟩ := r
  · exact hQ _ h
  · exact hP _ _ h

theorem Yields.mono_error {r : Reading c α} (h : r.Yields P Q) (hQ : ∀ e, Q e → Q' e) :
    r.Yields P Q' :=
  h.mono (fun _ _ => id) hQ

/-- The continuation starts from what the first part yields, and keeps its errors. -/
theorem Yields.andThen {r : Reading c α} {k : α → (d : Cursor) → d.unread ≤ c.unread → Reading d β}
    {R : β → Cursor → Prop} (h : r.Yields P Q) (hk : ∀ a d hd, P a d → (k a d hd).Yields R Q) :
    (r.andThen k).Yields R Q := by
  obtain ⟨⟨e | a, d⟩, hd⟩ := r
  · exact h
  · exact hk a d hd h

theorem Yields.andThen_of {r : Reading c α}
    {k : α → (d : Cursor) → d.unread ≤ c.unread → Reading d β} {R : β → Cursor → Prop} {a : α}
    {A : Prop} (h : r.Yields (fun b e => b = a ∧ e = d ∧ A) Q)
    (hk : A → ∀ hd, (k a d hd).Yields R Q) : (r.andThen k).Yields R Q := by
  refine .andThen h ?_
  rintro _ _ hd ⟨rfl, rfl, hA⟩
  exact hk hA hd

theorem Yields.past {ht : c.token.isSome}
    {k : (d : Cursor) → d.unread < c.unread → Reading d α}
    (hk : ∀ d hd, c.advance = (.ok (), d) → (k d hd).Yields P Q)
    (he : ∀ e d, c.advance = (.error e, d) → Q (.lexical e)) : (c.past ht k).Yields P Q := by
  unfold Cursor.past
  split
  next d hd => exact hk d _ hd
  next e d hd => exact he e d hd

theorem Yields.past_of {ht : c.token.isSome} {k : (d : Cursor) → d.unread < c.unread → Reading d α}
    (h : c.advance = (.ok (), d)) (hk : ∀ hd, (k d hd).Yields P Q) : (c.past ht k).Yields P Q := by
  refine .past (fun d' hd h' => ?_) fun e d' h' => ?_
  · cases h.symm.trans h'
    exact hk hd
  · cases h.symm.trans h'

theorem Yields.nested {limits : Limits} {depth : Nat} {k : Nat → Reading c α}
    (hk : depth < limits.depth → (k (depth + 1)).Yields P Q)
    (he : limits.depth ≤ depth → Q (.nestingTooDeep limits.depth c.position)) :
    (c.nested limits depth k).Yields P Q := by
  unfold Cursor.nested
  split
  next h => exact he h
  next h => exact hk (Nat.lt_of_not_le h)

theorem Yields.closing {P : Unit → Cursor → Prop}
    (hk : ∀ d, c.token = some .closeParen → c.advance = (.ok (), d) → P () d)
    (he : ∀ e d, c.token = some .closeParen → c.advance = (.error e, d) → Q (.lexical e))
    (hn : c.token ≠ some .closeParen → Q (.expectedClosing c.position)) :
    c.closing.Yields P Q := by
  unfold Cursor.closing
  split
  next h => exact .past (fun d _ hd => hk d h hd) fun e d hd => he e d h hd
  next h => exact hn h

theorem yields_accept {limits : Limits} {position : Nat} {e : Expr} {height : Nat}
    {P : Subtree → Cursor → Prop} (hk : height ≤ limits.height → P ⟨e, height⟩ c)
    (he : limits.height < height → Q (.tooLarge limits.height position)) :
    (stay c (limits.accept position e height)).Yields P Q := by
  unfold Limits.accept
  split
  next h => exact he h
  next h => exact hk (Nat.le_of_not_lt h)

end Reading

end Formula
