import Mathlib.Tactic.SplitIfs
import Formula.Proofs.Grammar

/-!
# Equations of the productions

What a production does at a token, read off its definition once. Everything else on the productions
is proved from these equations.

* `past_of_ok`, `past_of_error`: what moving on from a token comes to.
* `operand_plus`, …, `level_joined`, `chain_some`: the equations.
* `whole`: a formula as a reading.
* **`productions_induction`**: induction along the calls of the productions, one case for each way
  through them.
-/

namespace Formula

namespace Cursor

variable {limits : Limits} {depth : Nat} {c d : Cursor} {α : Type}

theorem past_of_ok {ht : c.token.isSome} {k : (d : Cursor) → d.unread < c.unread → Reading d α}
    (h : c.advance = (.ok (), d)) :
    (c.past ht k).1 = (k d (by simpa [h] using unread_advance_lt ht)).1 := by
  unfold past
  split
  next d' hd' =>
    cases h.symm.trans hd'
    rfl
  next hd' => cases h.symm.trans hd'

theorem past_of_error {ht : c.token.isSome} {k : (d : Cursor) → d.unread < c.unread → Reading d α}
    {e : LexicalError} (h : c.advance = (.error e, d)) :
    (c.past ht k).1 = (.error (.lexical e), d) := by
  unfold past
  split
  next hd' => cases h.symm.trans hd'
  next hd' =>
    cases h.symm.trans hd'
    rfl

theorem operand_plus (h : c.token = some .plus) :
    operand limits depth c = c.past (by simp [h]) fun d _ =>
      d.nested limits depth fun deeper => operand limits deeper d := by
  obtain ⟨_, position, rest, finish⟩ := c
  cases h
  rw [operand]

theorem operand_minus (h : c.token = some .minus) :
    operand limits depth c = c.past (by simp [h]) fun d _ =>
      (d.nested limits depth fun deeper => operand limits deeper d).andThen fun inner d _ =>
        .stay d (limits.accept d.position (.neg inner.expr) (inner.height + 1)) := by
  obtain ⟨_, position, rest, finish⟩ := c
  cases h
  rw [operand]

theorem operand_number {value : Float} (h : c.token = some (.number value)) :
    operand limits depth c =
      if limits.height < 1 then .stay c (.error (.tooLarge limits.height c.position))
      else c.past (by simp [h]) fun d _ => .stay d (.ok ⟨.number value, 1⟩) := by
  obtain ⟨_, position, rest, finish⟩ := c
  cases h
  rw [operand]
  simp only [Limits.accept]
  split_ifs <;> rfl

theorem operand_name {name : String} (h : c.token = some (.name name)) :
    operand limits depth c = c.past (by simp [h]) fun d _ =>
      if hd : d.token = some .openParen then
        d.past (by simp [hd]) fun d _ =>
          (d.nested limits depth fun deeper => arguments limits deeper d).andThen
            fun (inner, height) d _ =>
              .stay d (limits.accept d.position (.call name inner) (height + 1))
      else .stay d (limits.accept d.position (.var name) 1) := by
  obtain ⟨_, position, rest, finish⟩ := c
  cases h
  rw [operand]

theorem operand_openParen (h : c.token = some .openParen) :
    operand limits depth c = c.past (by simp [h]) fun d _ =>
      (d.nested limits depth fun deeper => level .sum limits deeper d).andThen fun inner d _ =>
        d.closing.andThen fun _ d _ => .stay d (.ok inner) := by
  obtain ⟨_, position, rest, finish⟩ := c
  cases h
  rw [operand]

theorem operand_none (h : c.token = none) :
    operand limits depth c = .stay c (.error (.unexpectedEnd c.position)) := by
  obtain ⟨_, position, rest, finish⟩ := c
  cases h
  rw [operand]

theorem operand_other {t : Token} (h : c.token = some t)
    (ht : t = .star ∨ t = .slash ∨ t = .closeParen ∨ t = .comma) :
    operand limits depth c =
      .stay c (.error (.unexpectedToken (Token.describe (some t)) c.position)) := by
  obtain ⟨_, position, rest, finish⟩ := c
  cases h
  rcases ht with rfl | rfl | rfl | rfl <;> rw [operand]

theorem level_operand : level .operand limits depth c = operand limits depth c := by
  rw [level]

theorem level_joined {l : Level} (h : l ≠ .operand) :
    level l limits depth c =
      (level l.below limits depth c).andThen fun first d _ => chain l limits depth first d := by
  cases l with
  | operand => exact (h rfl).elim
  | product =>
    rw [level]
    rfl
  | sum =>
    rw [level]
    rfl

theorem chain_none {l : Level} {left : Subtree} (h : c.operator? l = none) :
    chain l limits depth left c = .stay c (.ok left) := by
  rw [chain]
  split
  next => rfl
  next o ho => cases h.symm.trans ho

theorem chain_some {l : Level} {left : Subtree} {o : Operator} (h : c.operator? l = some o) :
    chain l limits depth left c = c.past (isSome_of_operator? h) fun d _ =>
      (level l.below limits depth d).andThen fun right d _ =>
        (Reading.stay d (limits.accept d.position (.binary o left.expr right.expr)
          (max left.height right.height + 1))).andThen fun left d _ =>
            chain l limits depth left d := by
  rw [chain]
  split
  next ho => cases h.symm.trans ho
  next o' ho =>
    cases h.symm.trans ho
    congr 1
    funext d hd
    congr 1
    funext right d hd
    unfold Limits.accept
    split_ifs <;> rfl

theorem operator?_eq_some_iff {l : Level} {o : Operator} :
    c.operator? l = some o ↔ c.token = some o.token ∧ o.level = l := by
  rw [operator?, Option.filter_eq_some_iff, Option.bind_eq_some_iff]
  simp only [Operator.ofToken?_eq_some, decide_eq_true_eq, exists_eq_right]

theorem operator?_eq_none_iff {l : Level} :
    c.operator? l = none ↔ ∀ o : Operator, c.token = some o.token → o.level ≠ l := by
  rw [Option.eq_none_iff_forall_ne_some]
  refine forall_congr' fun o => ?_
  rw [ne_eq, operator?_eq_some_iff, not_and]

/-! ## Whole formulas -/

/-- A formula that ends where the source ends, as a reading. -/
def whole (limits : Limits) (c : Cursor) : Reading c Expr :=
  (c.level .sum limits 0).andThen fun tree d _ =>
    match d.token with
    | none => .stay d (.ok tree.expr)
    | some token => .stay d (.error (.trailingTokens (Token.describe token) d.position))

theorem expression_eq_whole (limits : Limits) (c : Cursor) :
    c.expression limits = (c.whole limits).1 := by
  unfold expression whole
  generalize c.level .sum limits 0 = r
  obtain ⟨⟨e | tree, d⟩, hd⟩ := r
  · rfl
  · show (match d.token with | none => _ | some token => _) = Subtype.val _
    cases ht : d.token <;> simp [Reading.andThen, Reading.since, Reading.stay, ht]

/-! ## Induction -/

/-- Induction along the calls of the productions. What holds of the calls that a production makes at
a cursor, whatever the limits are, holds of the production. -/
theorem productions_induction (Operand : Nat → Cursor → Prop)
    (OfLevel : Level → Nat → Cursor → Prop) (Chain : Level → Nat → Subtree → Cursor → Prop)
    (Arguments SomeArguments : Nat → Cursor → Prop)
    (sign : ∀ (depth : Nat) (c : Cursor) (t : Token), c.token = some t → t = .plus ∨ t = .minus →
      (∀ d : Cursor, d.unread < c.unread → ∀ deeper, Operand deeper d) → Operand depth c)
    (number : ∀ (depth : Nat) (c : Cursor) (value : Float), c.token = some (.number value) →
      Operand depth c)
    (name : ∀ (depth : Nat) (c : Cursor) (name : String), c.token = some (.name name) →
      (∀ d : Cursor, d.unread < c.unread → ∀ f : Cursor, f.unread < d.unread →
        ∀ deeper, Arguments deeper f) → Operand depth c)
    (group : ∀ (depth : Nat) (c : Cursor), c.token = some .openParen →
      (∀ d : Cursor, d.unread < c.unread → ∀ deeper, OfLevel .sum deeper d) → Operand depth c)
    (finish : ∀ (depth : Nat) (c : Cursor), c.token = none → Operand depth c)
    (other : ∀ (depth : Nat) (c : Cursor) (t : Token), c.token = some t →
      t = .star ∨ t = .slash ∨ t = .closeParen ∨ t = .comma → Operand depth c)
    (operand : ∀ (depth : Nat) (c : Cursor), Operand depth c → OfLevel .operand depth c)
    (joined : ∀ (l : Level) (depth : Nat) (c : Cursor), l ≠ .operand → OfLevel l.below depth c →
      (∀ (first : Subtree) (d : Cursor), d.unread ≤ c.unread → Chain l depth first d) →
        OfLevel l depth c)
    (last : ∀ (l : Level) (depth : Nat) (left : Subtree) (c : Cursor), c.operator? l = none →
      Chain l depth left c)
    (operator : ∀ (l : Level) (depth : Nat) (left : Subtree) (c : Cursor) (o : Operator),
      c.operator? l = some o → (∀ d : Cursor, d.unread < c.unread → OfLevel l.below depth d) →
        (∀ d : Cursor, d.unread < c.unread → ∀ f : Cursor, f.unread ≤ d.unread → ∀ left,
          Chain l depth left f) → Chain l depth left c)
    (noArguments : ∀ (depth : Nat) (c : Cursor), c.token = some .closeParen → Arguments depth c)
    (arguments : ∀ (depth : Nat) (c : Cursor), c.token ≠ some .closeParen →
      SomeArguments depth c → Arguments depth c)
    (someArguments : ∀ (depth : Nat) (c : Cursor), OfLevel .sum depth c →
      (∀ d : Cursor, d.unread ≤ c.unread → ∀ f : Cursor, f.unread < d.unread →
        SomeArguments depth f) → SomeArguments depth c) :
    (∀ depth c, Operand depth c) ∧ (∀ l depth c, OfLevel l depth c) ∧
      (∀ l depth left c, Chain l depth left c) ∧ (∀ depth c, Arguments depth c) ∧
      ∀ depth c, SomeArguments depth c := by
  refine Cursor.operand.mutual_induct {} Operand OfLevel Chain Arguments SomeArguments
    (fun depth c h => sign depth c _ h (.inl rfl)) (fun depth c h => sign depth c _ h (.inr rfl))
    (fun depth c value h _ _ => number depth c value h)
    (fun depth c value h _ _ => number depth c value h) name group finish ?_ operand
    (fun depth c => joined .product depth c Level.noConfusion)
    (fun depth c => joined .sum depth c Level.noConfusion) last operator noArguments arguments
    someArguments
  intro depth c t hplus hminus hnumber hname hopen h
  refine other depth c t h ?_
  cases t with
  | plus => exact (hplus rfl).elim
  | minus => exact (hminus rfl).elim
  | number value => exact (hnumber value rfl).elim
  | name name => exact (hname name rfl).elim
  | openParen => exact (hopen rfl).elim
  | star => exact .inl rfl
  | slash => exact .inr (.inl rfl)
  | closeParen => exact .inr (.inr (.inl rfl))
  | comma => exact .inr (.inr (.inr rfl))

end Cursor

theorem parse_eq_expression {source : String} {limits : Limits} {c : Cursor}
    (hc : Cursor.ofSource source = .ok c) : parse source limits = (c.expression limits).1 := by
  rw [parse, hc]

theorem parse_eq_error {source : String} {e : LexicalError} (hc : Cursor.ofSource source = .error e)
    (limits : Limits) : parse source limits = .error (.lexical e) := by
  rw [parse, hc]

end Formula
