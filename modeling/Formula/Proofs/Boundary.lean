import Formula.Proofs.Cutting
import Formula.Proofs.Pieces
import Formula.Proofs.Relocation

/-!
# Between lexemes

A text can be parted at every point that is not inside a lexeme, and what is put in there between
blanks does not touch the lexemes on both sides.

* `Lexeme.StandsBetween`: a lexeme is cut off between two parts of a text.
* `Inside`: a point inside a lexeme. **`not_inside_iff`**: all other points are ends of a cut.
* `Cuts.replace`: a part is cut as it was in front of any delimited text.
* **`ofChars_spaced`**: with blanks put in between lexemes, the items behind move on.
-/

namespace Formula

/-- The lexeme is cut off a text between `front` and `back`. -/
structure Lexeme.StandsBetween (l : Lexeme) (front back : List Char) : Prop where
  cut : ∃ items, Cuts 0 front items (l.spelling ++ back)
  ends : l.EndsBefore back

/-- The point between two parts of a text is inside a lexeme, which begins with `inner` in front of
it and ends with `outer` behind it. -/
inductive Inside : List Char → List Char → Prop
  | intro {l : Lexeme} {start inner outer rest : List Char} :
    l.StandsBetween start rest → l.spelling = inner ++ outer → inner ≠ [] → outer ≠ [] →
      Inside (start ++ inner) (outer ++ rest)

/-! ## Ends of a cut -/

namespace Lexeme

variable {l m : Lexeme} {cs ds : List Char}

theorem EndsBefore.unique (hl : l.EndsBefore cs) (hm : m.EndsBefore ds)
    (h : l.spelling ++ cs = m.spelling ++ ds) : l = m ∧ cs = ds := by
  obtain ⟨c, ls, hls, -, hfirst⟩ := first_of_endsBefore hl
  obtain ⟨d, ms, hms, -, hfirst'⟩ := first_of_endsBefore hm
  rw [hls, hms, List.cons_append, List.cons_append] at h
  obtain ⟨rfl, htail⟩ := List.cons.inj h
  rw [htail] at hfirst
  exact Prod.mk.inj (hfirst.symm.trans hfirst')

theorem EndsBefore.not_isBlank (hl : l.EndsBefore cs) {c : Char} (h : l.spelling ++ cs = c :: ds) :
    ¬ isBlank c := by
  obtain ⟨d, ls, hls, hd, -⟩ := first_of_endsBefore hl
  rw [hls, List.cons_append] at h
  obtain ⟨rfl, -⟩ := List.cons.inj h
  exact hd

theorem EndsBefore.spelling_ne_nil (hl : l.EndsBefore cs) : l.spelling ≠ [] := by
  obtain ⟨c, ls, hls, -, -⟩ := first_of_endsBefore hl
  simp [hls]

end Lexeme

namespace Cuts

variable {position start : Nat} {front back cs rest tail : List Char} {items others : List Item}

theorem replace (h : Cuts position cs items rest) (ht : Delimited tail) :
    Cuts position cs items tail := by
  induction h with
  | nil => exact .nil _ _
  | blank hc _ ih => exact .blank hc ih
  | lexeme hl _ ih => exact .lexeme (hl.replace ht) ih

theorem single {l : Lexeme} (h : l.EndsBefore rest) (position : Nat) :
    Cuts position l.spelling [⟨l.piece, position⟩] rest := by
  have hcut : Cuts position (l.spelling ++ []) [⟨l.piece, position⟩] rest := .lexeme h (.nil _ _)
  rwa [List.append_nil] at hcut

theorem append (h : Cuts position front items (cs ++ rest))
    (hcs : Cuts (position + byteLength front) cs others rest) :
    Cuts position (front ++ cs) (items ++ others) rest := by
  generalize htail : cs ++ rest = tail at h
  induction h with
  | nil => exact hcs
  | blank hc _ ih =>
    rw [byteLength_cons, ← Nat.add_assoc] at hcs
    exact .blank hc (ih hcs htail)
  | lexeme hl _ ih =>
    subst htail
    rw [byteLength_append, ← Nat.add_assoc] at hcs
    rw [← List.append_assoc] at hl
    rw [List.append_assoc]
    exact .lexeme hl (ih hcs rfl)

/-- A point parts a text or is inside a lexeme. -/
theorem divide (h : Cuts position (front ++ back) items rest) :
    (∃ others, Cuts position front others (back ++ rest)) ∨
      ∃ (l : Lexeme) (start inner outer ds : List Char) (others : List Item),
        front = start ++ inner ∧ back = outer ++ ds ∧ l.spelling = inner ++ outer ∧
          inner ≠ [] ∧ outer ≠ [] ∧ Cuts position start others (l.spelling ++ (ds ++ rest)) ∧
            l.EndsBefore (ds ++ rest) := by
  generalize hcs : front ++ back = cs at h
  induction h generalizing front with
  | nil position rest =>
    obtain ⟨rfl, rfl⟩ := List.append_eq_nil_iff.1 hcs
    exact .inl ⟨[], .nil _ _⟩
  | @blank position c cs items rest hc _ ih =>
    rcases List.append_eq_cons_iff.1 hcs with ⟨rfl, rfl⟩ | ⟨front, rfl, rfl⟩
    · exact .inl ⟨[], .nil _ _⟩
    · rcases ih rfl with ⟨others, hcut⟩ | ⟨l, start, inner, outer, ds, others, rfl, hsides⟩
      · exact .inl ⟨others, .blank hc hcut⟩
      · obtain ⟨hback, hl, hinner, houter, hcut, hends⟩ := hsides
        exact .inr ⟨l, c :: start, inner, outer, ds, others, rfl, hback, hl, hinner, houter,
          .blank hc hcut, hends⟩
  | @lexeme position l cs items rest hl _ ih =>
    rcases List.append_eq_append_iff.1 hcs with ⟨outer, hspelling, rfl⟩ | ⟨behind, rfl, rfl⟩
    · by_cases hfront : front = []
      · subst hfront
        exact .inl ⟨[], .nil _ _⟩
      by_cases houter : outer = []
      · subst houter
        rw [List.append_nil] at hspelling
        have hcut := single hl position
        rw [hspelling] at hcut
        exact .inl ⟨_, hcut⟩
      · exact .inr ⟨l, [], front, outer, cs, [], rfl, rfl, hspelling, hfront, houter, .nil _ _, hl⟩
    · rcases ih rfl with ⟨others, hcut⟩ | ⟨m, start, inner, outer, ds, others, rfl, hsides⟩
      · rw [List.append_assoc] at hl
        exact .inl ⟨_, .lexeme hl hcut⟩
      · obtain ⟨rfl, hm, hinner, houter, hcut, hends⟩ := hsides
        refine .inr ⟨m, l.spelling ++ start, inner, outer, ds, _, (List.append_assoc ..).symm, rfl,
          hm, hinner, houter, .lexeme ?_ hcut, hends⟩
        rw [hm]
        simpa using hl

theorem of_blank {c : Char} (hc : isBlank c) (h : Cuts position (c :: cs) items rest) :
    Cuts (position + c.utf8Size) cs items rest := by
  generalize hds : c :: cs = ds at h
  cases h with
  | nil => cases hds
  | blank _ h =>
    obtain ⟨rfl, rfl⟩ := List.cons.inj hds
    exact h
  | @lexeme _ l ds _ _ hl _ =>
    have htext : l.spelling ++ (ds ++ rest) = c :: (cs ++ rest) := by
      rw [← List.append_assoc, ← hds, List.cons_append]
    exact (hl.not_isBlank htext hc).elim

theorem of_lexeme {l : Lexeme} (hl : l.EndsBefore (cs ++ rest))
    (h : Cuts position (l.spelling ++ cs) items rest) :
    ∃ others, Cuts (position + byteLength l.spelling) cs others rest := by
  generalize hds : l.spelling ++ cs = ds at h
  cases h with
  | nil => exact (hl.spelling_ne_nil (List.append_eq_nil_iff.1 hds).1).elim
  | @blank _ c ds _ _ hc _ =>
    have htext : l.spelling ++ (cs ++ rest) = c :: (ds ++ rest) := by
      rw [← List.append_assoc, hds, List.cons_append]
    exact (hl.not_isBlank htext hc).elim
  | @lexeme _ m ds _ _ hm h =>
    have htext : l.spelling ++ (cs ++ rest) = m.spelling ++ (ds ++ rest) := by
      rw [← List.append_assoc, hds, List.append_assoc]
    obtain ⟨rfl, hrest⟩ := hl.unique hm htext
    rw [List.append_cancel_right hrest]
    exact ⟨_, h⟩

/-- Of two cuts the longer one goes on where the shorter one ends. -/
theorem behind (h : Cuts position (front ++ back) items rest)
    (hfront : Cuts start front others (back ++ rest)) :
    ∃ position items, Cuts position back items rest := by
  generalize htail : back ++ rest = tail at hfront
  induction hfront generalizing position items with
  | nil => exact ⟨_, _, h⟩
  | blank hc _ ih => exact ih (h.of_blank hc) htail
  | lexeme hl _ ih =>
    subst htail
    rw [← List.append_assoc] at hl
    rw [List.append_assoc] at h
    obtain ⟨others, h⟩ := h.of_lexeme hl
    exact ih h rfl

end Cuts

theorem Lexeme.StandsBetween.cut_behind {l : Lexeme} {front back : List Char}
    (h : l.StandsBetween front back) :
    ∃ items, Cuts 0 (front ++ l.spelling) (items ++ [⟨l.piece, byteLength front⟩]) back := by
  obtain ⟨⟨items, hfront⟩, hends⟩ := h
  refine ⟨items, hfront.append ?_⟩
  rw [Nat.zero_add]
  exact .single hends _

/-- **A text can be parted at every point that is not inside a lexeme.** -/
theorem not_inside_iff {front back : List Char} :
    ¬ Inside front back ↔ ∃ items, Cuts 0 front items back := by
  constructor
  · intro h
    rcases (cuts_ofChars 0 (front ++ back)).divide with hcut | hinside
    · rwa [List.append_nil] at hcut
    · obtain ⟨l, start, inner, outer, ds, others, rfl, rfl, hl, hinner, houter, hcut, hends⟩ :=
        hinside
      rw [List.append_nil] at hcut hends
      exact (h (.intro ⟨⟨others, hcut⟩, hends⟩ hl hinner houter)).elim
  · rintro ⟨items, hcut⟩ ⟨⟨⟨others, hstart⟩, hends⟩, hl, hinner, houter⟩
    rename_i l start inner outer rest
    rw [hl, List.append_assoc] at hstart
    obtain ⟨position, items, h⟩ := hcut.behind hstart
    -- the lexeme ends in front of the point, and so nothing of it is behind
    cases h with
    | nil => exact hinner rfl
    | blank hc _ => exact hends.not_isBlank (by rw [hl, List.append_assoc]; rfl) hc
    | @lexeme _ m cs _ _ hm _ =>
      have htext : m.spelling ++ (cs ++ (outer ++ rest)) = l.spelling ++ rest := by
        rw [hl]
        simp
      obtain ⟨rfl, -⟩ := hm.unique hends htext
      have hnothing := congrArg List.length hl
      simp only [List.length_append] at hnothing
      exact houter (List.length_eq_zero_iff.1 (by omega))

/-! ## Blanks between lexemes -/

/-- A position behind the point moves on. -/
def moveOn (point added position : Nat) : Nat :=
  if position < point then position else position + added

variable {position : Nat} {front blanks back rest : List Char} {items : List Item}

theorem delimited_of_isBlank {c : Char} (hc : isBlank c) (cs : List Char) :
    Delimited (c :: cs) := by
  refine delimited_cons ⟨Bool.eq_false_iff.2 fun h => not_isBlank_of_isNameRest h hc, ?_⟩ cs
  rintro rfl
  exact absurd hc (by decide)

theorem Cuts.spaced (h : Cuts position front items back) (hblanks : ∀ c ∈ blanks, isBlank c) :
    Cuts position front items (blanks ++ back) := by
  cases blanks with
  | nil => exact h
  | cons c blanks => exact h.replace (delimited_of_isBlank (hblanks c (.head _)) _)

theorem Cuts.position_lt (h : Cuts position front items rest) :
    ∀ item ∈ items, item.position < position + byteLength front := by
  induction h with
  | nil => exact nofun
  | blank _ _ ih =>
    intro item hitem
    have := ih item hitem
    rw [byteLength_cons]
    omega
  | @lexeme position l cs items rest hl _ ih =>
    have hpos := byteLength_pos hl.spelling_ne_nil
    intro item hitem
    rw [byteLength_append]
    rcases List.mem_cons.1 hitem with rfl | hitem
    · show position < _
      omega
    · have := ih item hitem
      omega

theorem ofChars_add (added position : Nat) (cs : List Char) :
    Item.ofChars (position + added) cs =
      (Item.ofChars position cs).map (Item.relocate (· + added)) := by
  induction cs using Item.ofChars_induction generalizing position with
  | nil => simp
  | blank c cs hc ih =>
    rw [Item.ofChars_blank hc, Item.ofChars_blank hc, Nat.add_right_comm, ih]
  | lexeme c cs hc ih =>
    rw [Item.ofChars_lexeme hc, Item.ofChars_lexeme hc, Nat.add_right_comm, ih]
    rfl

theorem ofChars_blanks (h : ∀ c ∈ blanks, isBlank c) (position : Nat) (cs : List Char) :
    Item.ofChars position (blanks ++ cs) = Item.ofChars (position + byteLength blanks) cs := by
  induction blanks generalizing position with
  | nil => rfl
  | cons c blanks ih =>
    rw [List.forall_mem_cons] at h
    rw [List.cons_append, Item.ofChars_blank h.1, ih h.2, byteLength_cons, Nat.add_assoc]

/-- **With blanks put in between lexemes the items behind move on.** -/
theorem ofChars_spaced (h : Cuts 0 front items back) (hblanks : ∀ c ∈ blanks, isBlank c) :
    Item.ofChars 0 (front ++ (blanks ++ back)) = (Item.ofChars 0 (front ++ back)).map
      (Item.relocate (moveOn (byteLength front) (byteLength blanks))) := by
  have hfront : items.map (Item.relocate (moveOn (byteLength front) (byteLength blanks))) =
      items := by
    refine (List.map_congr_left fun item hitem => ?_).trans (List.map_id items)
    have hlt := h.position_lt item hitem
    rw [Nat.zero_add] at hlt
    exact congrArg (Item.mk item.piece) (if_pos hlt)
  have hback : (Item.ofChars (byteLength front) back).map (Item.relocate (· + byteLength blanks)) =
      (Item.ofChars (byteLength front) back).map
        (Item.relocate (moveOn (byteLength front) (byteLength blanks))) := by
    refine List.map_congr_left fun item hitem => ?_
    have hle := ((Item.ofChars_positions (byteLength front) back).2 item hitem).1
    exact congrArg (Item.mk item.piece) (if_neg (Nat.not_lt_of_le hle)).symm
  rw [(h.spaced hblanks).ofChars_append, h.ofChars_append, Nat.zero_add, ofChars_blanks hblanks,
    ofChars_add, List.map_append, hfront, hback]

end Formula
