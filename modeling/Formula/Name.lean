/-!
# Names

A name is an ASCII letter or an underscore, followed by ASCII letters, digits and underscores. The
same rule serves the names in a formula and the names that a binding may give a value to.
-/

namespace Formula

/-- A name may begin with the character. -/
def isNameStart (c : Char) : Bool := c.isAlpha || c == '_'

/-- A name may go on with the character. -/
def isNameRest (c : Char) : Bool := c.isAlphanum || c == '_'

/-- The characters are a name. -/
def isName : List Char → Bool
  | [] => false
  | c :: cs => isNameStart c && cs.all isNameRest

theorem isNameRest_of_isNameStart {c : Char} (h : isNameStart c) : isNameRest c := by
  simp only [isNameStart, isNameRest, Char.isAlphanum, Bool.or_eq_true] at *
  exact h.imp_left .inl

theorem isNameRest_of_mem {cs : List Char} {c : Char} (h : isName cs) (hc : c ∈ cs) :
    isNameRest c := by
  cases cs with
  | nil => cases h
  | cons d cs =>
    rw [isName, Bool.and_eq_true] at h
    rcases List.mem_cons.1 hc with rfl | hc
    · exact isNameRest_of_isNameStart h.1
    · exact List.all_eq_true.1 h.2 c hc

end Formula
