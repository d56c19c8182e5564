import Formula.Proofs.Equations
import Formula.Proofs.Failure

/-!
# What stands behind a formula

A formula of a level is read up to a token that does not go on with it. An operator of the level or
of one below goes on with it, and so does a parenthesis behind a name, since it makes it a call.

* `Halts`: the token behind a formula does not go on with it.
* **`Place.refuses_of_halts`**: behind a sum it is refused, unless it closes, separates or ends.
-/

namespace Formula

/-- The token behind the formula `ts` of a level does not go on with it. -/
structure Halts (l : Level) (ts : List Token) (next : Option Token) : Prop where
  operator : ∀ o : Operator, next = some o.token → l.rank < o.level.rank
  call : next = some .openParen → ¬ ts.getLast?.any Token.isName

namespace Halts

variable {l : Level} {ts us : List Token} {next : Option Token} {t : Token}

/-- Only the end of the formula counts. -/
theorem append_iff (hus : us ≠ []) (ts : List Token) :
    Halts l (ts ++ us) next ↔ Halts l us next := by
  have hlast : (ts ++ us).getLast? = us.getLast? := by
    rw [List.getLast?_append, List.getLast?_eq_some_getLast hus, Option.some_or]
  constructor
  · intro h
    exact ⟨h.operator, hlast ▸ h.call⟩
  · intro h
    exact ⟨h.operator, hlast.symm ▸ h.call⟩

theorem below (h : Halts l ts next) : Halts l.below ts next := by
  refine ⟨fun o ho => Nat.lt_of_le_of_lt ?_ (h.operator o ho), h.call⟩
  cases l <;> decide

theorem operator?_eq_none {c : Cursor} (h : Halts l ts c.token) : c.operator? l = none := by
  rw [Cursor.operator?_eq_none_iff]
  rintro o ho rfl
  exact absurd (h.operator o ho) (Nat.lt_irrefl _)

theorem of_below {c : Cursor} (h : Halts l.below ts c.token) (ho : c.operator? l = none) :
    Halts l ts c.token := by
  refine ⟨fun o hc => ?_, h.call⟩
  have h1 := h.operator o hc
  have h2 := Cursor.operator?_eq_none_iff.1 ho o hc
  cases l <;> cases o <;> simp_all [Level.below, Operator.level]

theorem of_operand (hc : next = some .openParen → ¬ ts.getLast?.any Token.isName) :
    Halts .operand ts next := by
  refine ⟨fun o _ => ?_, hc⟩
  cases o <;> decide

theorem of_closed (ts : List Token) : Halts .operand (ts ++ [.closeParen]) next := by
  refine of_operand fun _ => ?_
  rw [List.getLast?_concat]
  decide

/-- An operator goes on with formulas of its level, and not with those they are made of. -/
theorem of_operator (o : Operator) (ts : List Token) : Halts o.level.below ts (some o.token) := by
  refine ⟨fun p hp => ?_, fun hp => ?_⟩
  · cases o <;> cases p <;> first | decide | cases hp
  · cases o <;> cases hp

theorem of_token (l : Level) (ts : List Token) (ht : t = .closeParen ∨ t = .comma) :
    Halts l ts (some t) := by
  refine ⟨fun o ho => ?_, fun ho => ?_⟩
  · rcases ht with rfl | rfl <;> cases o <;> cases ho
  · rcases ht with rfl | rfl <;> cases ho

theorem of_none (l : Level) (ts : List Token) : Halts l ts none :=
  ⟨nofun, nofun⟩

end Halts

/-- What stands behind a sum is refused, unless it closes or separates or ends. -/
theorem Place.refuses_of_halts {p : Place} {ts : List Token} {next : Option Token}
    (hp : p.needsOperand = false) (hb : p.before = ts.getLast?) (h : Halts .sum ts next)
    (hn : next = none → p.opened ≠ []) (hc : next = some .closeParen → p.opened = [])
    (hs : next = some .comma → p.opened.head? ≠ some .call) :
    p.Refuses (next.map .token) := by
  cases next with
  | none => exact .inr (hn rfl)
  | some t =>
    have hop : ∀ o : Operator, t ≠ o.token := by
      rintro o rfl
      have := h.operator o rfl
      cases o <;> simp [Operator.level] at this
    show (p.openedAfter t).map _ = none
    rw [Option.map_eq_none_iff]
    cases t with
    | number | name => simp [openedAfter, hp]
    | plus => exact absurd rfl (hop .add)
    | minus => exact absurd rfl (hop .sub)
    | star => exact absurd rfl (hop .mul)
    | slash => exact absurd rfl (hop .div)
    | openParen => simp [openedAfter, hp, hb, h.call rfl]
    | closeParen => simp [openedAfter, hc rfl]
    | comma => simp [openedAfter, hp, hs rfl]

end Formula
