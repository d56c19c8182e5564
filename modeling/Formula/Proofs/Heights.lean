import Mathlib.Tactic.SplitIfs
import Formula.Proofs.Equations
import Formula.Proofs.Reading

/-!
# How high trees are

* `Measured`: a tree is as high as it is said to be, within the limit, and no higher than the tokens
  that it was read from are many.
* **`Cursor.measures`**: all productions have it, and what is too high for the limit was read from
  more tokens than the limit allows.
-/

namespace Formula

/-- The height `height` of a tree is the true one and is within the limit. If `unread` items are
ahead behind it, then it was read from at least `height` of the `total` items that were ahead
before. -/
structure Measured (limits : Limits) (total : Nat) (height trueHeight unread : Nat) : Prop where
  eq : height = trueHeight
  le : height ≤ limits.height
  passed : height + unread ≤ total

/-- If the error is that a tree is too high, then more than the limit of the items were ahead. -/
def Exceeds (limits : Limits) (total : Nat) (e : ParseError) : Prop :=
  ∀ limit position, e = .tooLarge limit position → limits.height < total

theorem Exceeds.of_le {limits : Limits} {m n : Nat} {e : ParseError} (h : Exceeds limits m e)
    (hle : m ≤ n) : Exceeds limits n e :=
  fun limit position he => Nat.lt_of_lt_of_le (h limit position he) hle

theorem exceeds_of_ne {limits : Limits} {n : Nat} {e : ParseError}
    (h : ∀ limit position, e ≠ .tooLarge limit position) : Exceeds limits n e :=
  fun limit position he => (h limit position he).elim

namespace Cursor

variable (limits : Limits)

/-- The statement on the productions that read a tree. -/
def MeasuresTree {c : Cursor} (total : Nat) (r : Reading c Subtree) : Prop :=
  r.Yields (fun t d => Measured limits total t.height t.expr.height d.unread) (Exceeds limits total)

/-- The statement on the productions that read arguments. -/
def MeasuresArguments {c : Cursor} (total : Nat) (r : Reading c (List Expr × Nat)) : Prop :=
  r.Yields (fun p d => Measured limits total p.2 (Expr.heights p.1) d.unread) (Exceeds limits total)

/-- The statement on the production that goes on with a tree. -/
def MeasuresChain {c : Cursor} (left : Subtree) (r : Reading c Subtree) : Prop :=
  ∀ total, Measured limits total left.height left.expr.height c.unread → MeasuresTree limits total r

variable {limits} {depth total height trueHeight : Nat} {c d : Cursor} {α : Type}

theorem measures_past {ht : c.token.isSome} {k : (d : Cursor) → d.unread < c.unread → Reading d α}
    {P : α → Cursor → Prop} (hk : ∀ d hd, (k d hd).Yields P (Exceeds limits total)) :
    (c.past ht k).Yields P (Exceeds limits total) :=
  .past (fun d hd _ => hk d hd) fun _ _ _ => exceeds_of_ne nofun

theorem measures_nested {k : Nat → Reading c α} {P : α → Cursor → Prop}
    (hk : ∀ deeper, (k deeper).Yields P (Exceeds limits total)) :
    (c.nested limits depth k).Yields P (Exceeds limits total) :=
  .nested (fun _ => hk _) fun _ => exceeds_of_ne nofun

theorem measures_accept {e : Expr} (heq : height = e.height) (hpassed : height + c.unread ≤ total) :
    MeasuresTree limits total (.stay c (limits.accept c.position e height)) :=
  Reading.yields_accept (fun hle => ⟨heq, hle, hpassed⟩) fun hlt _ _ _ => by omega

theorem measures_closing {P : Unit → Cursor → Prop} (h : ∀ d, d.unread < c.unread → P () d) :
    c.closing.Yields P (Exceeds limits total) := by
  refine .closing (fun d ht hd => h d ?_) (fun _ _ _ _ => exceeds_of_ne nofun) fun _ =>
    exceeds_of_ne nofun
  simpa [hd] using unread_advance_lt (c := c) (by simp [ht])

/-! ## Productions -/

theorem measures_sign {t : Token} (h : c.token = some t) (ht : t = .plus ∨ t = .minus)
    (ih : ∀ d : Cursor, d.unread < c.unread → ∀ deeper,
      MeasuresTree limits d.unread (operand limits deeper d)) :
    MeasuresTree limits c.unread (operand limits depth c) := by
  have hnested : ∀ d : Cursor, d.unread < c.unread →
      (d.nested limits depth fun deeper => operand limits deeper d).Yields
        (fun t f => Measured limits d.unread t.height t.expr.height f.unread)
        (Exceeds limits c.unread) :=
    fun d hd => measures_nested fun deeper =>
      (ih d hd deeper).mono_error fun _ he => he.of_le (Nat.le_of_lt hd)
  rcases ht with rfl | rfl
  · rw [operand_plus h]
    refine measures_past fun d hd => (hnested d hd).mono (fun t f hf => ?_) fun _ => id
    have := hf.passed
    exact ⟨hf.eq, hf.le, by omega⟩
  · rw [operand_minus h]
    refine measures_past fun d hd => .andThen (hnested d hd) fun t f _ hf => ?_
    have := hf.passed
    refine measures_accept ?_ (by omega)
    rw [hf.eq, Expr.height]

theorem measures_number {value : Float} (h : c.token = some (.number value)) :
    MeasuresTree limits c.unread (operand limits depth c) := by
  have hpos : 0 < c.unread := by
    rw [unread, h]
    exact Nat.succ_pos _
  rw [operand_number h]
  split_ifs with hlim
  · exact fun _ _ _ => by omega
  · refine measures_past fun d hd => ⟨by rw [Expr.height], Nat.le_of_not_lt hlim, ?_⟩
    show 1 + d.unread ≤ c.unread
    omega

theorem measures_name {name : String} (h : c.token = some (.name name))
    (ih : ∀ d : Cursor, d.unread < c.unread → ∀ f : Cursor, f.unread < d.unread → ∀ deeper,
      MeasuresArguments limits f.unread (arguments limits deeper f)) :
    MeasuresTree limits c.unread (operand limits depth c) := by
  rw [operand_name h]
  refine measures_past fun d hd => ?_
  split_ifs
  · refine measures_past fun f hf => .andThen (P := fun p g =>
      Measured limits f.unread p.2 (Expr.heights p.1) g.unread) ?_ fun p g _ hg => ?_
    · refine measures_nested fun deeper => (ih d hd f hf deeper).mono_error fun _ he => ?_
      exact he.of_le (by omega)
    · have := hg.passed
      refine measures_accept ?_ (by omega)
      rw [Expr.height, hg.eq]
  · refine measures_accept ?_ (by omega)
    rw [Expr.height]

theorem measures_openParen (h : c.token = some .openParen)
    (ih : ∀ d : Cursor, d.unread < c.unread → ∀ deeper,
      MeasuresTree limits d.unread (level .sum limits deeper d)) :
    MeasuresTree limits c.unread (operand limits depth c) := by
  rw [operand_openParen h]
  refine measures_past fun d hd => .andThen (P := fun t f =>
    Measured limits d.unread t.height t.expr.height f.unread) ?_ fun t f _ hf => ?_
  · refine measures_nested fun deeper => (ih d hd deeper).mono_error fun _ he => ?_
    exact he.of_le (Nat.le_of_lt hd)
  · have := hf.passed
    refine .andThen (P := fun _ g => g.unread < f.unread) (measures_closing fun g hg => hg) ?_
    exact fun _ g _ hg => ⟨hf.eq, hf.le, by omega⟩

theorem measures_level {l : Level} (hl : l ≠ .operand)
    (ih : MeasuresTree limits c.unread (level l.below limits depth c))
    (ihc : ∀ (first : Subtree) (d : Cursor), d.unread ≤ c.unread →
      MeasuresChain limits first (chain l limits depth first d)) :
    MeasuresTree limits c.unread (level l limits depth c) := by
  rw [level_joined hl]
  exact .andThen ih fun first d hd hfirst => ihc first d hd _ hfirst

theorem measures_chain_some {l : Level} {left : Subtree} {o : Operator} (h : c.operator? l = some o)
    (ih : ∀ d : Cursor, d.unread < c.unread →
      MeasuresTree limits d.unread (level l.below limits depth d))
    (ihc : ∀ d : Cursor, d.unread < c.unread → ∀ f : Cursor, f.unread ≤ d.unread → ∀ left,
      MeasuresChain limits left (chain l limits depth left f)) :
    MeasuresChain limits left (chain l limits depth left c) := by
  intro total hleft
  have hpassed := hleft.passed
  rw [chain_some h]
  refine measures_past fun d hd => .andThen (P := fun t f =>
    Measured limits d.unread t.height t.expr.height f.unread) ?_ fun right f hf hright => ?_
  · exact (ih d hd).mono_error fun _ he => he.of_le (by omega)
  · have := hright.passed
    refine .andThen (P := fun t g => Measured limits total t.height t.expr.height g.unread) ?_ ?_
    · refine measures_accept ?_ (by omega)
      rw [Expr.height, hleft.eq, hright.eq]
    · exact fun t g hg ht => ihc d hd g (Nat.le_trans hg hf) t total ht

theorem measures_arguments_nil (h : c.token = some .closeParen) :
    MeasuresArguments limits c.unread (arguments limits depth c) := by
  rw [arguments, dif_pos h]
  exact measures_past fun d hd => ⟨rfl, Nat.zero_le _, by omega⟩

theorem measures_someArguments (ih : MeasuresTree limits c.unread (level .sum limits depth c))
    (ihs : ∀ d : Cursor, d.unread ≤ c.unread → ∀ f : Cursor, f.unread < d.unread →
      MeasuresArguments limits f.unread (someArguments limits depth f)) :
    MeasuresArguments limits c.unread (someArguments limits depth c) := by
  rw [someArguments]
  refine .andThen ih fun first d hd hfirst => ?_
  have hpassed := hfirst.passed
  split_ifs
  · refine .andThen (P := fun p g => ∃ f : Cursor, f.unread < d.unread ∧
      Measured limits f.unread p.2 (Expr.heights p.1) g.unread) ?_ ?_
    · refine measures_past fun f hf => (ihs d hd f hf).mono (fun _ _ hg => ⟨f, hf, hg⟩) ?_
      exact fun _ he => he.of_le (by omega)
    · rintro ⟨es, height⟩ g - ⟨f, hf, heq, hle, (hothers : height + g.unread ≤ f.unread)⟩
      have heq : height = Expr.heights es := heq
      refine ⟨?_, Nat.max_le.2 ⟨hfirst.le, hle⟩, ?_⟩
      · show max first.height height = max first.expr.height (Expr.heights es)
        rw [hfirst.eq, heq]
      · show max first.height height + g.unread ≤ c.unread
        omega
  · refine .andThen (P := fun _ g => g.unread < d.unread) (measures_closing fun g hg => hg) ?_
    intro _ g _ hg
    refine ⟨?_, hfirst.le, by show first.height + g.unread ≤ _; omega⟩
    show first.height = max first.expr.height 0
    rw [hfirst.eq, Nat.max_zero]

/-- **All trees are as high as they are said to be**, and no higher than their tokens are many. -/
theorem measures (limits : Limits) :
    (∀ depth c, MeasuresTree limits c.unread (operand limits depth c)) ∧
    (∀ l depth c, MeasuresTree limits c.unread (level l limits depth c)) ∧
    (∀ l depth left c, MeasuresChain limits left (chain l limits depth left c)) ∧
    (∀ depth c, MeasuresArguments limits c.unread (arguments limits depth c)) ∧
    ∀ depth c, MeasuresArguments limits c.unread (someArguments limits depth c) := by
  refine productions_induction
    (fun depth c => MeasuresTree limits c.unread (operand limits depth c))
    (fun l depth c => MeasuresTree limits c.unread (level l limits depth c))
    (fun l depth left c => MeasuresChain limits left (chain l limits depth left c))
    (fun depth c => MeasuresArguments limits c.unread (arguments limits depth c))
    (fun depth c => MeasuresArguments limits c.unread (someArguments limits depth c))
    ?sign ?number ?name ?group ?finish ?other ?operand ?joined ?last ?operator ?noArguments
    ?arguments ?someArguments
  case sign => exact fun depth c t h ht ih => measures_sign h ht ih
  case number => exact fun depth c value h => measures_number h
  case name => exact fun depth c name h ih => measures_name h ih
  case group => exact fun depth c h ih => measures_openParen h ih
  case finish =>
    intro depth c h
    rw [operand_none h]
    exact exceeds_of_ne nofun
  case other =>
    intro depth c t h ht
    rw [operand_other h ht]
    exact exceeds_of_ne nofun
  case operand =>
    intro depth c ih
    rwa [level_operand]
  case joined => exact fun l depth c hl ih ihc => measures_level hl ih ihc
  case last =>
    intro l depth left c h total hleft
    rw [chain_none h]
    exact hleft
  case operator => exact fun l depth left c o h ih ihc => measures_chain_some h ih ihc
  case noArguments => exact fun depth c h => measures_arguments_nil h
  case arguments =>
    intro depth c h ih
    rwa [arguments, dif_neg h]
  case someArguments => exact fun depth c ih ihs => measures_someArguments ih ihs

end Cursor

end Formula
