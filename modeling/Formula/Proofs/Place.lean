import Mathlib.Tactic.SplitIfs
import Formula.Proofs.Grammar

/-!
# Places between tokens

Which token may stand next depends on the token before and on the groups and calls that are open.

* `Place`: the two, as they are known after some tokens; `Place.step`, `Place.scan`: how tokens move
  it.
* **`Place.scans_of_spelled`**: a phrase is scanned from every place where it can begin.
* **`Place.not_viable_of_step`**, **`Place.not_sentence_of_scan`**: a token that is refused
  continues no formula, and a place that is not at rest ends none.
* `needsOperand`, `isOpen`: the place of a run of tokens read off the tokens themselves.
-/

namespace Formula

/-- The token ends an operand. -/
def Token.endsOperand : Token → Bool
  | number _ => true
  | name _ => true
  | closeParen => true
  | _ => false

/-- The token is a name. -/
def Token.isName : Token → Bool
  | name _ => true
  | _ => false

/-- An operand is needed after the tokens: at the start, and after a token that does not end one. -/
def needsOperand (ts : List Token) : Bool := !ts.getLast?.any Token.endsOperand

/-- A group or a call is open after the tokens. -/
def isOpen (ts : List Token) : Bool := ts.count .closeParen < ts.count .openParen

/-- What a parenthesis was opened for. -/
inductive Opening
  | group
  | call
deriving DecidableEq

/-- What is known between two tokens. -/
structure Place where
  /-- The groups and calls that are open, the innermost first. -/
  opened : List Opening
  /-- The token before. -/
  before : Option Token

namespace Place

/-- Where a source begins. -/
def start : Place := ⟨[], none⟩

/-- An operand is needed next. -/
def needsOperand (p : Place) : Bool := !p.before.any Token.endsOperand

/-- The groups and calls that are open after a token, if it may stand here. -/
def openedAfter (p : Place) (t : Token) : Option (List Opening) :=
  match t with
  | .number _ | .name _ => if p.needsOperand then some p.opened else none
  | .plus | .minus => some p.opened
  | .star | .slash => if p.needsOperand then none else some p.opened
  | .openParen =>
    if p.needsOperand then some (.group :: p.opened)
    else if p.before.any Token.isName then some (.call :: p.opened)
    else none
  | .closeParen =>
    match p.opened with
    | [] => none
    | opening :: opened =>
      -- only a call may be closed right after it was opened
      if p.needsOperand && !(opening == .call && p.before == some .openParen) then none
      else some opened
  | .comma => if !p.needsOperand && p.opened.head? == some .call then some p.opened else none

/-- The place after a token, if it may stand here. -/
def step (p : Place) (t : Token) : Option Place := (p.openedAfter t).map (⟨·, some t⟩)

/-- The place after some tokens, if each of them may stand where it does. -/
def scan (p : Place) (ts : List Token) : Option Place := ts.foldlM step p

variable {p q : Place} {t : Token} {ts us : List Token}

@[simp]
theorem scan_nil : p.scan [] = some p := rfl

theorem scan_cons : p.scan (t :: ts) = (p.step t).bind (·.scan ts) := rfl

theorem scan_append : p.scan (ts ++ us) = (p.scan ts).bind (·.scan us) := by
  simp only [scan, List.foldlM_append]
  rfl

theorem scan_append_of (h : p.scan ts = some q) : p.scan (ts ++ us) = q.scan us := by
  rw [scan_append, h, Option.bind_some]

theorem scan_cons_of (h : p.step t = some q) : p.scan (t :: ts) = q.scan ts := by
  rw [scan_cons, h, Option.bind_some]

/-! ## Steps -/

theorem step_eq {opened : List Opening} (h : p.openedAfter t = some opened) :
    p.step t = some ⟨opened, some t⟩ := by
  rw [step, h, Option.map_some]

theorem not_needsOperand {opened : List Opening} (ht : t.endsOperand) :
    needsOperand ⟨opened, some t⟩ = false := by
  simp [needsOperand, ht]

theorem step_number (h : p.needsOperand) (value : Float) :
    p.step (.number value) = some ⟨p.opened, some (.number value)⟩ :=
  step_eq (by simp [openedAfter, h])

theorem step_name (h : p.needsOperand) (name : String) :
    p.step (.name name) = some ⟨p.opened, some (.name name)⟩ :=
  step_eq (by simp [openedAfter, h])

theorem step_sign (h : t = .plus ∨ t = .minus) : p.step t = some ⟨p.opened, some t⟩ := by
  rcases h with rfl | rfl <;> exact step_eq rfl

theorem step_operator (h : p.needsOperand = false) (o : Operator) :
    p.step o.token = some ⟨p.opened, some o.token⟩ := by
  refine step_eq ?_
  cases o <;> simp [openedAfter, Operator.token, h]

theorem step_group (h : p.needsOperand) :
    p.step .openParen = some ⟨.group :: p.opened, some .openParen⟩ :=
  step_eq (by simp [openedAfter, h])

theorem step_call (opened : List Opening) (name : String) :
    step ⟨opened, some (.name name)⟩ .openParen = some ⟨.call :: opened, some .openParen⟩ := rfl

theorem step_close {opening : Opening} {opened : List Opening} (h : t.endsOperand) :
    step ⟨opening :: opened, some t⟩ .closeParen = some ⟨opened, some .closeParen⟩ :=
  step_eq (by simp [openedAfter, needsOperand, h])

theorem step_comma {opened : List Opening} (h : t.endsOperand) (ho : opened.head? = some .call) :
    step ⟨opened, some t⟩ .comma = some ⟨opened, some .comma⟩ :=
  step_eq (by simp [openedAfter, needsOperand, h, ho])

/-! ## Phrases -/

/-- The tokens lead from a place where an operand is needed to one where none is, and leave open
what was open. -/
def Crosses (p : Place) (ts : List Token) : Prop :=
  ∃ t, ts.getLast? = some t ∧ t.endsOperand ∧ p.scan ts = some ⟨p.opened, some t⟩

theorem Crosses.of_step {opened : List Opening} {s : Token} (h : p.step s = some ⟨opened, some t⟩)
    (hts : Crosses ⟨opened, some t⟩ ts) (ho : opened = p.opened) : p.Crosses (s :: ts) := by
  obtain ⟨u, hu, he, hs⟩ := hts
  refine ⟨u, ?_, he, ?_⟩
  · rw [List.getLast?_cons, hu, Option.getD_some]
  · rw [scan_cons_of h, hs, ho]

/-- A second run of tokens that needs an operand before it, after a token that asks for one. -/
theorem Crosses.append {s : Token} (hts : p.Crosses ts)
    (hs : ∀ u : Token, u.endsOperand → step ⟨p.opened, some u⟩ s = some ⟨p.opened, some s⟩)
    (hus : Crosses ⟨p.opened, some s⟩ us) : p.Crosses (ts ++ s :: us) := by
  obtain ⟨t, -, he, ht⟩ := hts
  obtain ⟨u, hu, hue, hus⟩ := hus
  refine ⟨u, ?_, hue, ?_⟩
  · rw [List.getLast?_append, List.getLast?_cons, hu, Option.getD_some, Option.some_or]
  · rw [scan_append_of ht, scan_cons_of (hs t he), hus]

/-- How a phrase is scanned. Arguments are scanned together with the parenthesis that closes them,
since there may be none. -/
def Scans : Phrase → List Token → Prop
  | .tree _ _, ts => ∀ p : Place, p.needsOperand → p.Crosses ts
  | .arguments _, ts => ∀ opened,
    scan ⟨.call :: opened, some .openParen⟩ (ts ++ [.closeParen]) = some ⟨opened, some .closeParen⟩
  | .someArguments _, ts => ∀ p : Place, p.needsOperand → p.opened.head? = some .call → p.Crosses ts

/-- **A phrase is scanned from every place where it can begin.** -/
theorem scans_of_spelled {ph : Phrase} {n : Nat} (h : ph.Spelled ts n) : Scans ph ts := by
  induction h with
  | number value => exact fun p hp => ⟨_, rfl, rfl, scan_cons_of (step_number hp value)⟩
  | var name => exact fun p hp => ⟨_, rfl, rfl, scan_cons_of (step_name hp name)⟩
  | plus _ ih => exact fun p hp => .of_step (step_sign (.inl rfl)) (ih _ rfl) rfl
  | minus _ ih => exact fun p hp => .of_step (step_sign (.inr rfl)) (ih _ rfl) rfl
  | group _ ih =>
    intro p hp
    obtain ⟨t, -, he, ht⟩ := ih ⟨.group :: p.opened, some .openParen⟩ rfl
    refine ⟨.closeParen, ?_, rfl, ?_⟩
    · rw [← List.cons_append, List.getLast?_concat]
    · rw [scan_cons_of (step_group hp), scan_append_of ht, scan_cons_of (step_close he), scan_nil]
  | call function _ ih =>
    intro p hp
    refine ⟨.closeParen, ?_, rfl, ?_⟩
    · rw [← List.cons_append, ← List.cons_append, List.getLast?_concat]
    · rw [scan_cons_of (step_name hp function), scan_cons_of (step_call ..), ih]
  | product _ ih => exact ih
  | sum _ ih => exact ih
  | binary o _ _ ihl ihr =>
    exact fun p hp => (ihl p hp).append (fun u hu => step_operator (by simp [needsOperand, hu]) o)
      (ihr _ (by cases o <;> rfl))
  | none => exact fun opened => rfl
  | some _ ih =>
    intro opened
    obtain ⟨t, -, he, ht⟩ := ih ⟨.call :: opened, some .openParen⟩ rfl rfl
    rw [scan_append_of ht, scan_cons_of (step_close he), scan_nil]
  | last _ ih => exact fun p hp _ => ih p hp
  | more _ _ ihe ihes =>
    exact fun p hp ho => (ihe p hp).append (fun u hu => step_comma hu ho) (ihes _ rfl ho)

theorem ne_nil_of_spelled {l : Level} {e : Expr} {n : Nat}
    (h : (Phrase.tree l e).Spelled ts n) : ts ≠ [] := by
  obtain ⟨t, ht, -⟩ := scans_of_spelled h .start rfl
  rintro rfl
  cases ht

/-! ## Refusals -/

theorem scan_of_sentence (h : Sentence .sum ts) :
    ∃ t, t.endsOperand ∧ start.scan ts = some ⟨[], some t⟩ := by
  obtain ⟨e, n, h⟩ := h
  obtain ⟨t, -, he, ht⟩ := scans_of_spelled h start rfl
  exact ⟨t, he, ht⟩

/-- A token that is refused continues no formula. -/
theorem not_viable_of_step (h : start.scan ts = some p) (ht : p.step t = none) :
    ¬ Viable (ts ++ [t]) := by
  rintro ⟨us, hus⟩
  obtain ⟨u, -, hu⟩ := scan_of_sentence hus
  rw [List.append_assoc, scan_append_of h, List.singleton_append, scan_cons, ht] at hu
  cases hu

/-- A formula does not end where an operand is needed or a parenthesis is open. -/
theorem not_sentence_of_scan (h : start.scan ts = some p) (hp : p.needsOperand ∨ p.opened ≠ []) :
    ¬ Sentence .sum ts := by
  intro hts
  obtain ⟨t, he, ht⟩ := scan_of_sentence hts
  cases h.symm.trans ht
  rcases hp with hp | hp
  · simp [needsOperand, he] at hp
  · exact hp rfl

/-! ## Places read off tokens -/

theorem opened_of_step (h : p.step t = some q) :
    p.openedAfter t = some q.opened ∧ q.before = some t := by
  obtain ⟨opened, ho, rfl⟩ := Option.map_eq_some_iff.1 h
  exact ⟨ho, rfl⟩

theorem length_opened_of_step (h : p.step t = some q) :
    q.opened.length + [t].count .closeParen = p.opened.length + [t].count .openParen := by
  obtain ⟨opened, ho, rfl⟩ := Option.map_eq_some_iff.1 h
  cases t with
  | openParen =>
    rw [openedAfter] at ho
    split_ifs at ho <;> cases ho <;> rfl
  | closeParen =>
    rw [openedAfter] at ho
    split at ho
    next => cases ho
    next opening outer hp =>
      split_ifs at ho
      cases ho
      rw [hp]
      rfl
  | plus | minus =>
    cases ho
    rfl
  | _ =>
    rw [openedAfter] at ho
    split_ifs at ho
    cases ho
    rfl

theorem before_of_scan (h : p.scan ts = some q) : q.before = ts.getLast?.or p.before := by
  induction ts generalizing p with
  | nil =>
    cases h
    rfl
  | cons t ts ih =>
    obtain ⟨r, hr, hq⟩ := Option.bind_eq_some_iff.1 (scan_cons.symm.trans h)
    rw [ih hq, (opened_of_step hr).2, List.getLast?_cons]
    cases ts.getLast? <;> rfl

theorem length_opened_of_scan (h : p.scan ts = some q) :
    q.opened.length + ts.count .closeParen = p.opened.length + ts.count .openParen := by
  induction ts generalizing p with
  | nil =>
    cases h
    rfl
  | cons t ts ih =>
    obtain ⟨r, hr, hq⟩ := Option.bind_eq_some_iff.1 (scan_cons.symm.trans h)
    have h1 := ih hq
    have h2 := length_opened_of_step hr
    rw [← List.singleton_append, List.count_append, List.count_append]
    omega

theorem needsOperand_of_scan (h : start.scan ts = some p) :
    p.needsOperand = Formula.needsOperand ts := by
  rw [needsOperand, before_of_scan h, Formula.needsOperand, start, Option.or_none]

theorem opened_ne_nil_iff (h : start.scan ts = some p) : p.opened ≠ [] ↔ isOpen ts := by
  have hl := length_opened_of_scan h
  rw [isOpen, decide_eq_true_eq, ← List.length_pos_iff]
  simp only [start, List.length_nil] at hl
  omega

end Place

end Formula
