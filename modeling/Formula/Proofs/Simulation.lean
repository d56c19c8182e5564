import Mathlib.Tactic.SplitIfs
import Formula.Proofs.Equations

/-!
# Two runs

The productions run twice, from cursors that correspond and under two pairs of limits. What they
make of the cursors corresponds as well if each way of building a reading keeps it so.

* `Mark`: the errors that are made of the current position.
* `Simulation`: a correspondence that is kept, one field for each way of building a reading.
* **`Simulation.productions`**: it is kept by all productions, and by a whole formula
  (`Simulation.whole`).
* **`Cursor.expression_keeps`**: what moving on keeps, a formula keeps.
-/

namespace Formula

/-- The errors that a production makes of the position where it stands, whatever the limits are. -/
inductive Mark : (Nat → ParseError) → Prop
  | unexpectedToken (token : String) : Mark (.unexpectedToken token)
  | unexpectedEnd : Mark .unexpectedEnd
  | expectedClosing : Mark .expectedClosing
  | trailingTokens (token : String) : Mark (.trailingTokens token)

theorem Mark.position {mark : Nat → ParseError} (h : Mark mark) (position : Nat) :
    (mark position).position = position := by
  cases h <;> rfl

/-- What corresponds in two runs, under the limits `limits` and `limits'`. -/
structure Simulation (limits limits' : Limits) where
  /-- Where the runs stand. -/
  Near : Cursor → Cursor → Prop
  /-- What they make of it. -/
  Agree : ∀ {c c' : Cursor} {α : Type}, Reading c α → Reading c' α → Prop
  token : ∀ {c c' : Cursor}, Near c c' → c'.token = c.token
  ok : ∀ {c c' : Cursor} {α : Type}, Near c c' → ∀ a : α,
    Agree (.stay c (.ok a)) (.stay c' (.ok a))
  mark : ∀ {c c' : Cursor} {α : Type} {mark : Nat → ParseError}, Near c c' → Mark mark →
    Agree (α := α) (.stay c (.error (mark c.position))) (.stay c' (.error (mark c'.position)))
  /-- One level of nesting deeper. -/
  nested : ∀ {c c' : Cursor} {α : Type} {depth : Nat} {k : Nat → Reading c α}
    {k' : Nat → Reading c' α}, Near c c' → Agree (k (depth + 1)) (k' (depth + 1)) →
      Agree (c.nested limits depth k) (c'.nested limits' depth k')
  /-- A tree of a height, unless it is too high. -/
  height : ∀ {c c' : Cursor} {α : Type} {r : Reading c α} {r' : Reading c' α} (height : Nat),
    Near c c' → Agree r r' →
      Agree
        (if limits.height < height then .stay c (.error (.tooLarge limits.height c.position))
          else r)
        (if limits'.height < height then .stay c' (.error (.tooLarge limits'.height c'.position))
          else r')
  past : ∀ {c c' : Cursor} {α : Type} {h : c.token.isSome} {h' : c'.token.isSome}
    {k : (d : Cursor) → d.unread < c.unread → Reading d α}
    {k' : (d : Cursor) → d.unread < c'.unread → Reading d α}, Near c c' →
      (∀ d d' hd hd', Near d d' → Agree (k d hd) (k' d' hd')) → Agree (c.past h k) (c'.past h' k')
  andThen : ∀ {c c' : Cursor} {α β : Type} {r : Reading c α} {r' : Reading c' α}
    {k : α → (d : Cursor) → d.unread ≤ c.unread → Reading d β}
    {k' : α → (d : Cursor) → d.unread ≤ c'.unread → Reading d β}, Near c c' → Agree r r' →
      (∀ a d d' hd hd', Near d d' → Agree (k a d hd) (k' a d' hd')) →
        Agree (r.andThen k) (r'.andThen k')

namespace Simulation

variable {limits limits' : Limits} (S : Simulation limits limits') {c c' : Cursor}

include S

/-! ## Parts -/

theorem accept (h : S.Near c c') (e : Expr) (height : Nat) :
    S.Agree (.stay c (limits.accept c.position e height))
      (.stay c' (limits'.accept c'.position e height)) := by
  have hstay : ∀ (limits : Limits) (c : Cursor),
      Reading.stay c (limits.accept c.position e height) =
        if limits.height < height then .stay c (.error (.tooLarge limits.height c.position))
        else .stay c (.ok ⟨e, height⟩) := by
    intro limits c
    unfold Limits.accept
    split_ifs <;> rfl
  rw [hstay, hstay]
  exact S.height height h (S.ok h _)

theorem step {α : Type} (h : S.Near c c') (hc : c.token.isSome) (hc' : c'.token.isSome) (a : α) :
    S.Agree (c.past hc fun d _ => .stay d (.ok a)) (c'.past hc' fun d _ => .stay d (.ok a)) :=
  S.past h fun _ _ _ _ hd => S.ok hd a

theorem closing (h : S.Near c c') : S.Agree c.closing c'.closing := by
  unfold Cursor.closing
  by_cases ht : c.token = some .closeParen
  · rw [dif_pos ht, dif_pos ((S.token h).trans ht)]
    exact S.step h _ _ ()
  · rw [dif_neg ht, dif_neg (S.token h ▸ ht)]
    exact S.mark h .expectedClosing

theorem operator? (h : S.Near c c') (l : Level) : c'.operator? l = c.operator? l := by
  rw [Cursor.operator?, S.token h, ← Cursor.operator?]

/-! ## Productions -/

/-- What corresponding cursors are to a production. -/
def Keeps {α : Type} (p p' : (c : Cursor) → Reading c α) (c : Cursor) : Prop :=
  ∀ c', S.Near c c' → S.Agree (p c) (p' c')

variable {depth : Nat}

theorem operand_sign {t : Token} (ht : c.token = some t) (hsign : t = .plus ∨ t = .minus)
    (ih : ∀ d : Cursor, d.unread < c.unread → ∀ deeper,
      S.Keeps (Cursor.operand limits deeper) (Cursor.operand limits' deeper) d) :
    S.Keeps (Cursor.operand limits depth) (Cursor.operand limits' depth) c := by
  intro c' h
  have ht' := (S.token h).trans ht
  have hnested : ∀ d d' : Cursor, d.unread < c.unread → S.Near d d' →
      S.Agree (d.nested limits depth fun deeper => Cursor.operand limits deeper d)
        (d'.nested limits' depth fun deeper => Cursor.operand limits' deeper d') :=
    fun d d' hlt hd => S.nested hd (ih d hlt _ d' hd)
  rcases hsign with rfl | rfl
  · rw [Cursor.operand_plus ht, Cursor.operand_plus ht']
    exact S.past h fun d d' hlt _ hd => hnested d d' hlt hd
  · rw [Cursor.operand_minus ht, Cursor.operand_minus ht']
    exact S.past h fun d d' hlt _ hd => S.andThen hd (hnested d d' hlt hd)
      fun _ _ _ _ _ hf => S.accept hf _ _

theorem operand_number {value : Float} (ht : c.token = some (.number value)) :
    S.Keeps (Cursor.operand limits depth) (Cursor.operand limits' depth) c := by
  intro c' h
  rw [Cursor.operand_number ht, Cursor.operand_number ((S.token h).trans ht)]
  exact S.height 1 h (S.step h _ _ _)

theorem operand_name {name : String} (ht : c.token = some (.name name))
    (ih : ∀ d : Cursor, d.unread < c.unread → ∀ f : Cursor, f.unread < d.unread → ∀ deeper,
      S.Keeps (Cursor.arguments limits deeper) (Cursor.arguments limits' deeper) f) :
    S.Keeps (Cursor.operand limits depth) (Cursor.operand limits' depth) c := by
  intro c' h
  rw [Cursor.operand_name ht, Cursor.operand_name ((S.token h).trans ht)]
  refine S.past h fun d d' hlt _ hd => ?_
  by_cases hp : d.token = some .openParen
  · rw [dif_pos hp, dif_pos ((S.token hd).trans hp)]
    exact S.past hd fun f f' hlt' _ hf => S.andThen hf (S.nested hf (ih d hlt f hlt' _ f' hf))
      fun _ _ _ _ _ hg => S.accept hg _ _
  · rw [dif_neg hp, dif_neg (S.token hd ▸ hp)]
    exact S.accept hd _ _

theorem operand_openParen (ht : c.token = some .openParen)
    (ih : ∀ d : Cursor, d.unread < c.unread → ∀ deeper,
      S.Keeps (Cursor.level .sum limits deeper) (Cursor.level .sum limits' deeper) d) :
    S.Keeps (Cursor.operand limits depth) (Cursor.operand limits' depth) c := by
  intro c' h
  rw [Cursor.operand_openParen ht, Cursor.operand_openParen ((S.token h).trans ht)]
  refine S.past h fun d d' hlt _ hd => S.andThen hd (S.nested hd (ih d hlt _ d' hd)) ?_
  exact fun _ f f' _ _ hf => S.andThen hf (S.closing hf) fun _ _ _ _ _ hg => S.ok hg _

theorem operand_none (ht : c.token = none) :
    S.Keeps (Cursor.operand limits depth) (Cursor.operand limits' depth) c := by
  intro c' h
  rw [Cursor.operand_none ht, Cursor.operand_none ((S.token h).trans ht)]
  exact S.mark h .unexpectedEnd

theorem operand_other {t : Token} (ht : c.token = some t)
    (hother : t = .star ∨ t = .slash ∨ t = .closeParen ∨ t = .comma) :
    S.Keeps (Cursor.operand limits depth) (Cursor.operand limits' depth) c := by
  intro c' h
  rw [Cursor.operand_other ht hother, Cursor.operand_other ((S.token h).trans ht) hother]
  exact S.mark h (.unexpectedToken _)

theorem level_joined {l : Level} (hl : l ≠ .operand)
    (ih : S.Keeps (Cursor.level l.below limits depth) (Cursor.level l.below limits' depth) c)
    (ihc : ∀ (first : Subtree) (d : Cursor), d.unread ≤ c.unread →
      S.Keeps (Cursor.chain l limits depth first) (Cursor.chain l limits' depth first) d) :
    S.Keeps (Cursor.level l limits depth) (Cursor.level l limits' depth) c := by
  intro c' h
  rw [Cursor.level_joined hl, Cursor.level_joined hl]
  exact S.andThen h (ih c' h) fun first d d' hle _ hd => ihc first d hle d' hd

theorem chain_none {l : Level} {left : Subtree} (ho : c.operator? l = none) :
    S.Keeps (Cursor.chain l limits depth left) (Cursor.chain l limits' depth left) c := by
  intro c' h
  rw [Cursor.chain_none ho, Cursor.chain_none ((S.operator? h l).trans ho)]
  exact S.ok h left

theorem chain_some {l : Level} {left : Subtree} {o : Operator} (ho : c.operator? l = some o)
    (ih : ∀ d : Cursor, d.unread < c.unread →
      S.Keeps (Cursor.level l.below limits depth) (Cursor.level l.below limits' depth) d)
    (ihc : ∀ d : Cursor, d.unread < c.unread → ∀ f : Cursor, f.unread ≤ d.unread → ∀ left,
      S.Keeps (Cursor.chain l limits depth left) (Cursor.chain l limits' depth left) f) :
    S.Keeps (Cursor.chain l limits depth left) (Cursor.chain l limits' depth left) c := by
  intro c' h
  rw [Cursor.chain_some ho, Cursor.chain_some ((S.operator? h l).trans ho)]
  refine S.past h fun d d' hlt _ hd => S.andThen hd (ih d hlt d' hd) ?_
  refine fun right f f' hle _ hf => S.andThen hf (S.accept hf _ _) ?_
  exact fun left g g' hle' _ hg => ihc d hlt g (Nat.le_trans hle' hle) left g' hg

theorem arguments_nil (ht : c.token = some .closeParen) :
    S.Keeps (Cursor.arguments limits depth) (Cursor.arguments limits' depth) c := by
  intro c' h
  rw [Cursor.arguments, dif_pos ht, Cursor.arguments, dif_pos ((S.token h).trans ht)]
  exact S.step h _ _ _

theorem arguments_some (ht : c.token ≠ some .closeParen)
    (ih : S.Keeps (Cursor.someArguments limits depth) (Cursor.someArguments limits' depth) c) :
    S.Keeps (Cursor.arguments limits depth) (Cursor.arguments limits' depth) c := by
  intro c' h
  rw [Cursor.arguments, dif_neg ht, Cursor.arguments, dif_neg (S.token h ▸ ht)]
  exact ih c' h

theorem someArguments_step
    (ih : S.Keeps (Cursor.level .sum limits depth) (Cursor.level .sum limits' depth) c)
    (ihs : ∀ d : Cursor, d.unread ≤ c.unread → ∀ f : Cursor, f.unread < d.unread →
      S.Keeps (Cursor.someArguments limits depth) (Cursor.someArguments limits' depth) f) :
    S.Keeps (Cursor.someArguments limits depth) (Cursor.someArguments limits' depth) c := by
  intro c' h
  rw [Cursor.someArguments, Cursor.someArguments]
  refine S.andThen h (ih c' h) fun first d d' hle _ hd => ?_
  by_cases ht : d.token = some .comma
  · rw [dif_pos ht, dif_pos ((S.token hd).trans ht)]
    refine S.andThen hd (S.past hd fun f f' hlt _ hf => ihs d hle f hlt f' hf) ?_
    exact fun _ _ _ _ _ hg => S.ok hg _
  · rw [dif_neg ht, dif_neg (S.token hd ▸ ht)]
    exact S.andThen hd (S.closing hd) fun _ _ _ _ _ hf => S.ok hf _

/-- **A correspondence that every way of building a reading keeps is kept by all productions.** -/
theorem productions :
    (∀ depth c, S.Keeps (Cursor.operand limits depth) (Cursor.operand limits' depth) c) ∧
    (∀ l depth c, S.Keeps (Cursor.level l limits depth) (Cursor.level l limits' depth) c) ∧
    (∀ l depth left c,
      S.Keeps (Cursor.chain l limits depth left) (Cursor.chain l limits' depth left) c) ∧
    (∀ depth c, S.Keeps (Cursor.arguments limits depth) (Cursor.arguments limits' depth) c) ∧
    ∀ depth c,
      S.Keeps (Cursor.someArguments limits depth) (Cursor.someArguments limits' depth) c := by
  -- along the calls of the first run, which the second one makes as well
  refine Cursor.productions_induction
    (fun depth => S.Keeps (Cursor.operand limits depth) (Cursor.operand limits' depth))
    (fun l depth => S.Keeps (Cursor.level l limits depth) (Cursor.level l limits' depth))
    (fun l depth left =>
      S.Keeps (Cursor.chain l limits depth left) (Cursor.chain l limits' depth left))
    (fun depth => S.Keeps (Cursor.arguments limits depth) (Cursor.arguments limits' depth))
    (fun depth => S.Keeps (Cursor.someArguments limits depth) (Cursor.someArguments limits' depth))
    ?sign ?number ?name ?group ?finish ?other ?operand ?joined ?last ?operator ?noArguments
    ?arguments ?someArguments
  case sign => exact fun depth c t h ht ih => S.operand_sign h ht ih
  case number => exact fun depth c value h => S.operand_number h
  case name => exact fun depth c name h ih => S.operand_name h ih
  case group => exact fun depth c h ih => S.operand_openParen h ih
  case finish => exact fun depth c h => S.operand_none h
  case other => exact fun depth c t h ht => S.operand_other h ht
  case operand =>
    intro depth c ih c' h
    rw [Cursor.level_operand, Cursor.level_operand]
    exact ih c' h
  case joined => exact fun l depth c h ih ihc => S.level_joined h ih ihc
  case last => exact fun l depth left c h => S.chain_none h
  case operator => exact fun l depth left c o h ih ihc => S.chain_some h ih ihc
  case noArguments => exact fun depth c h => S.arguments_nil h
  case arguments => exact fun depth c h ih => S.arguments_some h ih
  case someArguments => exact fun depth c ih ihs => S.someArguments_step ih ihs

end Simulation

/-! ## Whole formulas -/

theorem Simulation.whole {limits limits' : Limits} (S : Simulation limits limits') {c c' : Cursor}
    (h : S.Near c c') : S.Agree (c.whole limits) (c'.whole limits') := by
  unfold Cursor.whole
  refine S.andThen h (S.productions.2.1 .sum 0 c c' h) fun tree d d' _ _ hd => ?_
  rw [S.token hd]
  cases d.token with
  | none => exact S.ok hd _
  | some t => exact S.mark hd (.trailingTokens _)

/-! ## What moves keep -/

/-- A run beside itself, with a relation between where it starts and where it ends that every move
keeps. -/
def keeping {Kept : Cursor → Cursor → Prop} (refl : ∀ c, Kept c c)
    (trans : ∀ c d e, Kept c d → Kept d e → Kept c e) (advance : ∀ c : Cursor, Kept c c.advance.2)
    (limits : Limits) : Simulation limits limits where
  Near c c' := c' = c
  Agree {c _ _} r _ := Kept c r.1.2
  token h := by rw [h]
  ok _ _ := refl _
  mark _ _ := refl _
  nested := by
    rintro c _ α depth k k' rfl h
    unfold Cursor.nested
    split_ifs
    · exact refl _
    · exact h
  height := by
    rintro c _ α r r' height rfl h
    split_ifs
    · exact refl _
    · exact h
  past := by
    rintro _ c α h h' k k' rfl hk
    have hmove := advance c
    unfold Cursor.past
    split
    next d hd =>
      rw [hd] at hmove
      exact trans _ _ _ hmove (hk d d _ (by simpa [hd] using Cursor.unread_advance_lt h) rfl)
    next e d hd =>
      rw [hd] at hmove
      exact hmove
  andThen := by
    rintro c _ α β ⟨⟨outcome, d⟩, hd⟩ r' k k' rfl h hk
    cases outcome with
    | error e => exact h
    | ok a => exact trans _ _ _ h (hk a d d hd hd rfl)

/-- What moving on keeps, a formula keeps, whatever it comes to. -/
theorem Cursor.expression_keeps (Kept : Cursor → Cursor → Prop) (refl : ∀ c, Kept c c)
    (trans : ∀ c d e, Kept c d → Kept d e → Kept c e) (advance : ∀ c : Cursor, Kept c c.advance.2)
    (limits : Limits) (c : Cursor) : Kept c (c.expression limits).2 := by
  rw [expression_eq_whole]
  exact (keeping refl trans advance limits).whole rfl

end Formula
