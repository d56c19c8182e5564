import Mathlib
import Formula.Proofs.Boundary
import Formula.Proofs.Lines

/-!
# Blanks do not count

* `pieces_surrounded`: blanks around a text.
* **`blanks_between_lexemes`**: blanks between the lexemes of a source, and around it, change
  nothing but the positions of errors.
-/

namespace Formula

theorem pieces_blanks {blanks : List Char} (h : ∀ c ∈ blanks, isBlank c) (cs : List Char) :
    pieces (blanks ++ cs) = pieces cs := by
  rw [pieces, ofChars_blanks h, map_piece_ofChars]

theorem pieces_surrounded {front back : List Char} (hfront : ∀ c ∈ front, isBlank c)
    (hback : ∀ c ∈ back, isBlank c) (cs : List Char) :
    pieces (front ++ cs ++ back) = pieces cs := by
  have hnone : pieces back = [] := by
    have := pieces_blanks hback []
    rwa [List.append_nil, pieces_nil] at this
  rw [List.append_assoc, pieces_blanks hfront]
  cases back with
  | nil => rw [List.append_nil]
  | cons c back =>
    rw [pieces_append (delimited_of_isBlank (hback c (.head _)) _), hnone, List.append_nil]

/-- What is carried along with the items is carried along with their offsets. -/
theorem offset_relocate {source source' : String} {f : Nat → Nat}
    (h : Item.ofSource source' = (Item.ofSource source).map (Item.relocate f))
    (hend : source'.utf8ByteSize = f source.utf8ByteSize) (n : Nat) :
    offset source' n = f (offset source n) := by
  rw [offset, offset, h, hend, List.getElem?_map]
  cases (Item.ofSource source)[n]? <;> rfl

/-- **Blanks do not count.** Blanks put in at a point that is not inside a lexeme leave all pieces
as they are. Those behind the point move on, and a formula comes to the same tree, or to the same
error at the same piece or at the end. So it does when it is trimmed. -/
theorem blanks_between_lexemes :
    (∀ front blanks back : String, (∀ c ∈ blanks.toList, isBlank c) →
      ¬ Inside front.toList back.toList →
      let source := front ++ back
      let spaced := front ++ blanks ++ back
      (Item.ofSource spaced).map (·.piece) = (Item.ofSource source).map (·.piece) ∧
        (∀ n, offset spaced n =
          if offset source n < front.utf8ByteSize then offset source n
          else offset source n + blanks.utf8ByteSize) ∧
        ∀ limits, SameOutcome source spaced limits) ∧
    ∀ (source : String) (limits : Limits),
      SameOutcome source (.ofList (trim source.toList)) limits := by
  constructor
  · intro front blanks back hblanks hpoint source spaced
    obtain ⟨items, hcut⟩ := not_inside_iff.1 hpoint
    have hitems : Item.ofSource spaced = (Item.ofSource source).map
        (Item.relocate (moveOn front.utf8ByteSize blanks.utf8ByteSize)) := by
      have := ofChars_spaced hcut hblanks
      rw [byteLength_toList, byteLength_toList] at this
      simpa [Item.ofSource, source, spaced] using this
    have hend : spaced.utf8ByteSize =
        moveOn front.utf8ByteSize blanks.utf8ByteSize source.utf8ByteSize := by
      simp only [source, spaced, moveOn, String.utf8ByteSize_append]
      split <;> omega
    have hpieces : (Item.ofSource spaced).map (·.piece) = (Item.ofSource source).map (·.piece) := by
      rw [hitems, List.map_map]
      rfl
    exact ⟨hpieces, offset_relocate hitems hend, sameOutcome_of_pieces hpieces⟩
  · intro source limits
    refine sameOutcome_of_pieces ?_ limits
    obtain ⟨front, back, hsource, hfront, hback⟩ := exists_surrounded source.toList
    rw [pieces_toList, pieces_toList, String.toList_ofList]
    conv_rhs => rw [hsource]
    exact (pieces_surrounded hfront hback _).symm

/-- The name and the parenthesis touch. With a wide blank between them the parenthesis is still too
much, three bytes further on. -/
theorem blanks_between_lexemes_touching :
    parse "a)" = .error (.trailingTokens "')'" 1) ∧
      parse ("a" ++ "\u3000" ++ ")") = .error (.trailingTokens "')'" 4) := by
  have htouching : parse ("a" ++ ")") = .error (.trailingTokens "')'" 1) := by cbv
  have hblanks : ∀ c ∈ "\u3000".toList, isBlank c := by
    simp [isBlank, blankRanges]
  have hpoint : ¬ Inside "a".toList ")".toList :=
    not_inside_iff.2 ⟨_, (cuts_ofChars 0 _).replace (delimited_cons (by decide) _)⟩
  obtain ⟨-, hoffset, hsame⟩ := blanks_between_lexemes.1 "a" "\u3000" ")" hblanks hpoint
  have hsame := hsame {}
  rw [SameOutcome, htouching] at hsame
  obtain ⟨n, hn, hspaced⟩ := hsame
  have hmoved : offset ("a" ++ "\u3000" ++ ")") n = 4 := by
    rw [hoffset n, ← hn]
    rfl
  refine ⟨htouching, hspaced.trans ?_⟩
  rw [hmoved]
  rfl

end Formula
