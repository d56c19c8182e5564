import Mathlib.Tactic.SplitIfs
import Formula.Item

/-!
# Where items stand

* `Item.ofChars_induction`: induction on a text as it is cut.
* **`Item.ofChars_positions`**: the items of a text rise and stand in it.
* `Item.positions_ofSource`, `Item.length_ofSource_le`: the items of a source.
* `Item.filter_before`, `Item.find?_at`: the items in front of a position, and the one on it.
-/

namespace Formula

theorem byteLength_pos {cs : List Char} (h : cs ≠ []) : 0 < byteLength cs := by
  cases cs with
  | nil => exact (h rfl).elim
  | cons c cs =>
    rw [byteLength_cons]
    have := c.utf8Size_pos
    omega

theorem append_inj_of_byteLength {front back front' back' : List Char}
    (h : front ++ back = front' ++ back') (hlength : byteLength front = byteLength front') :
    front = front' ∧ back = back' := by
  induction front generalizing front' with
  | nil =>
    cases front' with
    | nil => exact ⟨rfl, h⟩
    | cons c front' =>
      exact absurd hlength (Nat.ne_of_lt (byteLength_pos (List.cons_ne_nil c front')))
  | cons c front ih =>
    cases front' with
    | nil => exact absurd hlength.symm (Nat.ne_of_lt (byteLength_pos (List.cons_ne_nil c front)))
    | cons d front' =>
      obtain ⟨rfl, htail⟩ := List.cons.inj h
      obtain ⟨rfl, hback⟩ := ih htail (Nat.add_left_cancel hlength)
      exact ⟨rfl, hback⟩

theorem byteLength_first (c : Char) (cs : List Char) :
    byteLength (c :: cs) =
      byteLength (Lexeme.first c cs).1.spelling + byteLength (Lexeme.first c cs).2 := by
  rw [← byteLength_append, Lexeme.spelling_first]

namespace Item

/-- A text is empty, begins with a blank or begins with a piece. -/
theorem ofChars_induction {motive : List Char → Prop} (nil : motive [])
    (blank : ∀ c cs, isBlank c → motive cs → motive (c :: cs))
    (lexeme : ∀ c cs, ¬ isBlank c → motive (Lexeme.first c cs).2 → motive (c :: cs))
    (cs : List Char) : motive cs := by
  induction hn : cs.length using Nat.strongRecOn generalizing cs with
  | _ n ih =>
    cases cs with
    | nil => exact nil
    | cons c cs =>
      by_cases hc : isBlank c
      · exact blank c cs hc (ih _ (by simp [← hn]) cs rfl)
      · exact lexeme c cs hc (ih _ (hn ▸ Lexeme.length_first_lt c cs) _ rfl)

/-- **The items of a text rise and stand in it.** -/
theorem ofChars_positions (position : Nat) (cs : List Char) :
    (ofChars position cs).Pairwise (·.position < ·.position) ∧
      ∀ item ∈ ofChars position cs,
        position ≤ item.position ∧ item.position < position + byteLength cs := by
  induction cs using ofChars_induction generalizing position with
  | nil => simp
  | blank c cs hc ih =>
    obtain ⟨hrise, hin⟩ := ih (position + c.utf8Size)
    rw [ofChars_blank hc, byteLength_cons]
    refine ⟨hrise, fun item hitem => ?_⟩
    have := hin item hitem
    omega
  | lexeme c cs hc ih =>
    have hpos := byteLength_pos (Lexeme.spelling_first_ne_nil c cs)
    obtain ⟨hrise, hin⟩ := ih (position + byteLength (Lexeme.first c cs).1.spelling)
    rw [ofChars_lexeme hc, byteLength_first, List.pairwise_cons]
    refine ⟨⟨fun item hitem => ?_, hrise⟩, fun item hitem => ?_⟩
    · have := hin item hitem
      show position < item.position
      omega
    · rcases List.mem_cons.1 hitem with rfl | hitem
      · change position ≤ position ∧ position < _
        omega
      · have := hin item hitem
        omega

theorem length_ofChars_le (position : Nat) (cs : List Char) :
    (ofChars position cs).length ≤ byteLength cs := by
  induction cs using ofChars_induction generalizing position with
  | nil => simp
  | blank c cs hc ih =>
    rw [ofChars_blank hc, byteLength_cons]
    exact Nat.le_trans (ih _) (Nat.le_add_left ..)
  | lexeme c cs hc ih =>
    have hpos := byteLength_pos (Lexeme.spelling_first_ne_nil c cs)
    have hrest := ih (position + byteLength (Lexeme.first c cs).1.spelling)
    rw [ofChars_lexeme hc, byteLength_first, List.length_cons]
    omega

theorem positions_ofSource (source : String) :
    (ofSource source).Pairwise (·.position < ·.position) ∧
      ∀ item ∈ ofSource source, item.position < source.utf8ByteSize := by
  obtain ⟨hrise, hin⟩ := ofChars_positions 0 source.toList
  refine ⟨hrise, fun item hitem => ?_⟩
  have := (hin item hitem).2
  rwa [Nat.zero_add, byteLength_toList] at this

theorem length_ofSource_le (source : String) :
    (ofSource source).length ≤ source.utf8ByteSize := by
  rw [← byteLength_toList]
  exact length_ofChars_le 0 _

variable {items before after : List Item} {finish : Nat}

/-- Where what stands behind the first items begins. -/
def positionOf (after : List Item) (finish : Nat) : Nat :=
  (after.head?.map (·.position)).getD finish

/-- The first item of a text without a blank in front stands where the text does, and so does the
end of an empty text. -/
theorem positionOf_ofChars {cs : List Char} (h : ∀ c ∈ cs.head?, ¬ isBlank c) (position : Nat) :
    positionOf (ofChars position cs) (position + byteLength cs) = position := by
  cases cs with
  | nil =>
    rw [ofChars_nil]
    rfl
  | cons c cs =>
    rw [ofChars_lexeme (h c rfl)]
    rfl

theorem lt_positionOf (hrise : (before ++ after).Pairwise (·.position < ·.position))
    (hin : ∀ item ∈ before ++ after, item.position < finish) :
    ∀ item ∈ before, item.position < positionOf after finish := by
  intro item hitem
  cases after with
  | nil => exact hin item (List.mem_append_left _ hitem)
  | cons first rest => exact (List.pairwise_append.1 hrise).2.2 item hitem first (.head rest)

theorem positionOf_le (hrise : after.Pairwise (·.position < ·.position)) :
    ∀ item ∈ after, positionOf after finish ≤ item.position := by
  intro item hitem
  cases after with
  | nil => cases hitem
  | cons first rest =>
    rcases List.mem_cons.1 hitem with rfl | hitem
    · exact Nat.le_refl _
    · exact Nat.le_of_lt ((List.pairwise_cons.1 hrise).1 item hitem)

theorem filter_before (hrise : (before ++ after).Pairwise (·.position < ·.position))
    (hin : ∀ item ∈ before ++ after, item.position < finish) :
    (before ++ after).filter (·.position < positionOf after finish) = before := by
  have hbefore : before.filter (·.position < positionOf after finish) = before := by
    refine List.filter_eq_self.2 fun item hitem => ?_
    exact decide_eq_true (lt_positionOf hrise hin item hitem)
  have hafter : after.filter (·.position < positionOf after finish) = [] := by
    refine List.filter_eq_nil_iff.2 fun item hitem => ?_
    have hle : positionOf after finish ≤ item.position :=
      positionOf_le (List.pairwise_append.1 hrise).2.1 item hitem
    simpa using hle
  rw [List.filter_append, hbefore, hafter, List.append_nil]

theorem find?_at (hrise : (before ++ after).Pairwise (·.position < ·.position))
    (hin : ∀ item ∈ before ++ after, item.position < finish) :
    (before ++ after).find? (·.position == positionOf after finish) = after.head? := by
  have hbefore : before.find? (·.position == positionOf after finish) = none := by
    refine List.find?_eq_none.2 fun item hitem => ?_
    have := lt_positionOf hrise hin item hitem
    simpa using Nat.ne_of_lt this
  rw [List.find?_append, hbefore, Option.none_or]
  cases after with
  | nil => rfl
  | cons first rest => simp [positionOf]

end Item

end Formula
