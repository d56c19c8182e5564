import Formula.Proofs.Passage
import Formula.Proofs.Place
import Formula.Proofs.Reading

/-!
# Failures of productions

A production that fails for another reason than the limits has passed tokens that some further ones
complete, and has met something that none of the places it can start from goes on with.

* `fault`: the error for what is met at a place; `Place.Refuses`: it does not fit the place.
* `Fails`: the failure of a production, whose language and whose starting places are given.
* `Fails.prepend`: the failure of a part is one of the whole.
* `Fails.bad`, `Fails.here`: the failures at bad text and at the current token.
-/

namespace Formula

/-- The error is about the limits and not about the source. -/
def ParseError.isLimit : ParseError → Bool
  | nestingTooDeep _ _ => true
  | tooLarge _ _ => true
  | _ => false

/-- The error for what is met where an operand is needed or not, and where a group or a call is open
or not. -/
def fault (needsOperand isOpen : Bool) (next : Option Piece) (position : Nat) : ParseError :=
  match next with
  | some (.bad text) => .lexical ⟨text, position⟩
  | some (.token t) =>
    if needsOperand then .unexpectedToken (Token.describe t) position
    else if isOpen then .expectedClosing position
    else .trailingTokens (Token.describe t) position
  | none => if needsOperand then .unexpectedEnd position else .expectedClosing position

namespace Place

/-- What is met may not stand here. -/
def Refuses (p : Place) : Option Piece → Prop
  | some (.token t) => p.step t = none
  | some (.bad _) => True
  | none => p.needsOperand ∨ p.opened ≠ []

/-- The error for what is met here. -/
def fault (p : Place) (next : Option Piece) (position : Nat) : ParseError :=
  Formula.fault p.needsOperand (!p.opened.isEmpty) next position

end Place

/-- A production fails at `c`. It reads the runs of tokens in `L`, from places in `S`. -/
def Fails (L : List Token → Prop) (S : Place → Prop) (c : Cursor) (e : ParseError) : Prop :=
  e.isLimit = false → ∃ ts next position, c.Meets ts next position ∧ (∃ us, L (ts ++ us)) ∧
    ∀ p, S p → ∃ q, p.scan ts = some q ∧ q.Refuses next ∧ e = q.fault next position

namespace Fails

variable {L L' : List Token → Prop} {S S' : Place → Prop} {c d : Cursor} {e : ParseError}
  {t : Token} {ts : List Token}

theorem of_isLimit (h : e.isLimit) : Fails L S c e := fun hn => absurd (h.symm.trans hn) (by simp)

/-- **The failure of a part is one of the whole.** -/
theorem prepend (h : Fails L S d e) (hd : c.Passes ts d)
    (hL : ∀ us, L us → ∃ vs, L' (ts ++ (us ++ vs)))
    (hS : ∀ p, S' p → ∃ q, p.scan ts = some q ∧ S q) : Fails L' S' c e := by
  intro he
  obtain ⟨us, next, position, hm, ⟨vs, hv⟩, hp⟩ := h he
  refine ⟨ts ++ us, next, position, hd.meets hm, ?_, fun p hSp => ?_⟩
  · obtain ⟨ws, hw⟩ := hL _ hv
    exact ⟨vs ++ ws, by simpa only [List.append_assoc] using hw⟩
  · obtain ⟨q, hq, hSq⟩ := hS p hSp
    obtain ⟨r, hr, hrf⟩ := hp q hSq
    exact ⟨r, (Place.scan_append_of hq).trans hr, hrf⟩

theorem mono (h : Fails L S c e) (hL : ∀ us, L us → ∃ vs, L' (us ++ vs)) (hS : ∀ p, S' p → S p) :
    Fails L' S' c e :=
  h.prepend (.refl c) hL fun p hp => ⟨p, rfl, hS p hp⟩

theorem bad {e : LexicalError} (ht : c.token = some t) (hd : c.advance = (.error e, d))
    (hL : ∃ us, L (t :: us)) (hS : ∀ p, S p → (p.step t).isSome) : Fails L S c (.lexical e) := by
  intro _
  refine ⟨[t], some (.bad e.text), e.position, .bad (.refl c) ht hd, hL, fun p hp => ?_⟩
  obtain ⟨q, hq⟩ := Option.isSome_iff_exists.1 (hS p hp)
  exact ⟨q, by rw [Place.scan_cons_of hq, Place.scan_nil], trivial, rfl⟩

theorem here (hL : ∃ us, L us)
    (hS : ∀ p, S p → p.Refuses (c.token.map .token) ∧ e = p.fault (c.token.map .token) c.position) :
    Fails L S c e := by
  intro _
  exact ⟨[], _, _, .current (.refl c), hL, fun p hp => ⟨p, rfl, hS p hp⟩⟩

end Fails

end Formula
