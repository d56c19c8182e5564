import Mathlib.Tactic.SplitIfs
import Formula.Proofs.Equations
import Formula.Proofs.Passage
import Formula.Proofs.Place
import Formula.Proofs.Reading

/-!
# Nesting as a stack

The nesting that the productions count is the height of a stack, which knows no productions: it is
moved by the tokens alone, from the left to the right.

* `Frame`, `Stack`: what is open. `Stack.step`, `Stack.run`: how tokens move it.
* `Stack.Overflows`: the last of some tokens is the first one to make the stack too high.
* `Cursor.Climbs`, `Stuck`: how a reading moves the stack, and how it ends where it fails.
* `Ascends`: a reading takes one stack to another. Each way of building a reading has one rule.
* **`Cursor.ascends`**: all productions take the stack where a completed operand takes it.
-/

namespace Formula

/-! ## Stacks -/

/-- A parenthesis that is open, or a prefix whose operand is not complete. -/
inductive Frame
  | paren
  | sign
deriving DecidableEq, Repr

/-- What is known of the nesting between two tokens. -/
structure Stack where
  /-- What is open, the innermost first. -/
  frames : List Frame := []
  /-- The next token begins an operand. -/
  needsOperand : Bool := true
deriving DecidableEq, Repr

namespace Stack

/-- What a completed operand leaves open: it takes the prefixes on top with it. -/
def settle (frames : List Frame) : List Frame := frames.dropWhile (· == .sign)

/-- What is open after a token in front of `next`. -/
def framesAfter (s : Stack) (t : Token) (next : Option Token) : List Frame :=
  match t with
  | .openParen => .paren :: s.frames
  | .plus | .minus => if s.needsOperand then .sign :: s.frames else s.frames
  | .number _ => settle s.frames
  -- the name of a call is no operand yet
  | .name _ => if next = some .openParen then s.frames else settle s.frames
  | .closeParen => settle s.frames.tail
  | .star | .slash | .comma => s.frames

/-- The stack after a token in front of `next`. -/
def step (s : Stack) (t : Token) (next : Option Token) : Stack :=
  ⟨s.framesAfter t next, !t.endsOperand⟩

/-- The stack after some tokens in front of `next`. -/
def run (s : Stack) : List Token → Option Token → Stack
  | [], _ => s
  | t :: ts, next => (s.step t (ts.head?.or next)).run ts next

/-- How much is open. -/
def height (s : Stack) : Nat := s.frames.length

/-- In front of each of the tokens the stack is within the limit. -/
def Stays (limit : Nat) (s : Stack) (ts : List Token) : Prop :=
  ∀ us t vs, ts = us ++ t :: vs → (s.run us (some t)).height ≤ limit

/-- The last of the tokens makes the stack higher than the limit, and no earlier one does. -/
def Overflows (limit : Nat) (ts : List Token) (next : Option Token) : Prop :=
  limit < (run {} ts next).height ∧ Stays limit {} ts

variable {s : Stack} {limit : Nat} {ts us : List Token} {next : Option Token}

theorem length_settle_le (frames : List Frame) : (settle frames).length ≤ frames.length :=
  (List.dropWhile_sublist _).length_le

theorem height_step_le (s : Stack) (t : Token) (next : Option Token) :
    (s.step t next).height ≤ s.height + 1 := by
  have hsettle := length_settle_le s.frames
  unfold height step
  cases t with
  | openParen => exact Nat.le_refl _
  | plus | minus =>
    simp only [framesAfter]
    split_ifs
    · exact Nat.le_refl _
    · exact Nat.le_succ _
  | number value => exact Nat.le_succ_of_le hsettle
  | name name =>
    simp only [framesAfter]
    split_ifs
    · exact Nat.le_succ _
    · exact Nat.le_succ_of_le hsettle
  | closeParen =>
    have htail := length_settle_le s.frames.tail
    rw [List.length_tail] at htail
    simp only [framesAfter]
    omega
  | star | slash | comma => exact Nat.le_succ _

theorem height_run_le (s : Stack) (ts : List Token) (next : Option Token) :
    (s.run ts next).height ≤ s.height + ts.length := by
  induction ts generalizing s with
  | nil => exact Nat.le_refl _
  | cons t ts ih =>
    have hstep := s.height_step_le t (ts.head?.or next)
    have hrun := ih (s.step t (ts.head?.or next))
    rw [run, List.length_cons]
    omega

end Stack

/-! ## Climbing -/

/-- The cursor moves over tokens and the stack with it, which has been within the limit. -/
inductive Cursor.Climbs (limit : Nat) : Stack → Cursor → Stack → Cursor → Prop
  | refl (s : Stack) (c : Cursor) : Climbs limit s c s c
  | step {s s' : Stack} {c d e : Cursor} {t : Token} :
    s.height ≤ limit → c.token = some t → c.advance = (.ok (), d) →
      Climbs limit (s.step t d.token) d s' e → Climbs limit s c s' e

/-- How a reading fails where it stands: the stack is too high, or the next move meets bad text, or
the error is another one at the current position. -/
inductive Stuck (limit : Nat) (s : Stack) (c : Cursor) : ParseError → Prop
  | high : limit < s.height → Stuck limit s c (.nestingTooDeep limit c.position)
  | bad {t : Token} {e : LexicalError} {d : Cursor} :
    s.height ≤ limit → c.token = some t → c.advance = (.error e, d) → Stuck limit s c (.lexical e)
  | here {e : ParseError} :
    s.height ≤ limit → e.position = c.position →
      (∀ limit position, e ≠ .nestingTooDeep limit position) → Stuck limit s c e

/-- The reading climbs from the stack `s` to `s'`, which is within the limit, or gets stuck on the
way. -/
def Ascends (limit : Nat) {c : Cursor} {α : Type} (r : Reading c α) (s s' : Stack) : Prop :=
  r.Yields (fun _ d => Cursor.Climbs limit s c s' d ∧ s'.height ≤ limit)
    fun e => ∃ s' d, Cursor.Climbs limit s c s' d ∧ Stuck limit s' d e

namespace Cursor

variable {limit : Nat} {s s' s'' : Stack} {c d f : Cursor} {t : Token} {e : ParseError}

theorem Climbs.trans (h : Climbs limit s c s' d) (h' : Climbs limit s' d s'' f) :
    Climbs limit s c s'' f := by
  induction h with
  | refl => exact h'
  | step hs ht hd _ ih => exact .step hs ht hd (ih h')

theorem Passes.token_eq {ts : List Token} (h : c.Passes ts d) : c.token = ts.head?.or d.token := by
  cases h with
  | refl => rfl
  | step ht _ _ => exact ht

theorem Climbs.exists_passes (h : Climbs limit s c s' d) :
    ∃ ts, c.Passes ts d ∧ s' = s.run ts d.token ∧ s.Stays limit ts := by
  induction h with
  | refl s c => exact ⟨[], .refl c, rfl, fun us t vs hts => absurd hts.symm (by simp)⟩
  | @step s s' c d f t hs ht hd _ ih =>
    obtain ⟨ts, hts, hrun, hstays⟩ := ih
    refine ⟨t :: ts, .step ht hd hts, ?_, fun us u vs hus => ?_⟩
    · rw [hrun, Stack.run, hts.token_eq]
    · cases us with
      | nil => exact hs
      | cons _ us =>
        obtain ⟨rfl, rfl⟩ := List.cons.inj hus
        have hnext : d.token = us.head?.or (some u) := by
          rw [hts.token_eq]
          cases us <;> rfl
        rw [Stack.run, ← hnext]
        exact hstays us u vs rfl

end Cursor

namespace Ascends

variable {limits : Limits} {limit depth : Nat} {s s' s'' : Stack} {c : Cursor} {α β : Type}

theorem ok (hs : s.height ≤ limit) (a : α) : Ascends limit (.stay c (.ok a)) s s :=
  ⟨.refl s c, hs⟩

theorem error {e : ParseError} (hs : s.height ≤ limit) (he : e.position = c.position)
    (hn : ∀ limit position, e ≠ .nestingTooDeep limit position) :
    Ascends limit (.stay c (.error e : Except ParseError α)) s s' :=
  ⟨s, c, .refl s c, .here hs he hn⟩

theorem accept (hs : s.height ≤ limit) (e : Expr) (height : Nat) :
    Ascends limit (.stay c (limits.accept c.position e height)) s s :=
  Reading.yields_accept (fun _ => ⟨.refl s c, hs⟩) fun _ => ⟨s, c, .refl s c, .here hs rfl nofun⟩

theorem past {t : Token} {ht : c.token.isSome}
    {k : (d : Cursor) → d.unread < c.unread → Reading d α} (hs : s.height ≤ limit)
    (h : c.token = some t)
    (hk : ∀ d hd, Ascends limit (k d hd) (s.step t d.token) s') :
    Ascends limit (c.past ht k) s s' := by
  refine Reading.Yields.past (fun d hd hadvance => ?_) fun e d hd =>
    ⟨s, c, .refl s c, .bad hs h hd⟩
  refine (hk d hd).mono (fun _ f hf => ⟨.step hs h hadvance hf.1, hf.2⟩) ?_
  rintro e ⟨s', f, hf, hstuck⟩
  exact ⟨s', f, .step hs h hadvance hf, hstuck⟩

theorem andThen {r : Reading c α} {k : α → (d : Cursor) → d.unread ≤ c.unread → Reading d β}
    (hr : Ascends limit r s s')
    (hk : s'.height ≤ limit → ∀ a d hd, Ascends limit (k a d hd) s' s'') :
    Ascends limit (r.andThen k) s s'' := by
  refine Reading.Yields.andThen hr fun a d hd ⟨hclimbs, hs⟩ => ?_
  refine (hk hs a d hd).mono (fun _ f hf => ⟨hclimbs.trans hf.1, hf.2⟩) ?_
  rintro e ⟨s', f, hf, hstuck⟩
  exact ⟨s', f, hclimbs.trans hf, hstuck⟩

/-- Behind a token that makes the stack higher there is room for it or not. -/
theorem nested {k : Nat → Reading c α} (hs : s.height = depth + 1)
    (hk : s.height ≤ limits.depth → Ascends limits.depth (k (depth + 1)) s s') :
    Ascends limits.depth (c.nested limits depth k) s s' := by
  refine Reading.Yields.nested (fun hlt => hk (by omega)) fun hle => ?_
  exact ⟨s, c, .refl s c, .high (by omega)⟩

theorem closing (hs : s.height ≤ limit) :
    Ascends limit c.closing s ⟨Stack.settle s.frames.tail, false⟩ := by
  have hsettled : (Stack.settle s.frames.tail).length ≤ limit := by
    have := Stack.length_settle_le s.frames.tail
    rw [List.length_tail] at this
    unfold Stack.height at hs
    omega
  unfold Cursor.closing
  split_ifs with h
  · exact .past hs h fun d _ => .ok hsettled _
  · exact .error hs rfl nofun

end Ascends

namespace Cursor

variable (limits : Limits) (depth : Nat)

/-- An operand leaves open what is open in front of the prefixes before it. -/
def AscendsOperand {c : Cursor} (r : Reading c Subtree) : Prop :=
  ∀ frames, frames.length = depth → depth ≤ limits.depth →
    Ascends limits.depth r ⟨frames, true⟩ ⟨Stack.settle frames, false⟩

/-- A formula of a level, which stands behind no prefix, leaves open what is open before it. -/
def AscendsLevel {c : Cursor} (r : Reading c Subtree) : Prop :=
  ∀ frames, frames.length = depth → depth ≤ limits.depth → Stack.settle frames = frames →
    Ascends limits.depth r ⟨frames, true⟩ ⟨frames, false⟩

/-- So does what goes on with it. -/
def AscendsChain {c : Cursor} (r : Reading c Subtree) : Prop :=
  ∀ frames, frames.length = depth → depth ≤ limits.depth → Stack.settle frames = frames →
    Ascends limits.depth r ⟨frames, false⟩ ⟨frames, false⟩

/-- Arguments and the parenthesis behind them complete the call. -/
def AscendsArguments {c : Cursor} (r : Reading c (List Expr × Nat)) : Prop :=
  ∀ frames : List Frame, frames.length + 1 = depth → depth ≤ limits.depth →
    Ascends limits.depth r ⟨.paren :: frames, true⟩ ⟨Stack.settle frames, false⟩

variable {limits depth} {c : Cursor}

/-! ## Productions -/

theorem ascends_sign {t : Token} (h : c.token = some t) (ht : t = .plus ∨ t = .minus)
    (ih : ∀ d : Cursor, d.unread < c.unread → ∀ deeper,
      AscendsOperand limits deeper (operand limits deeper d)) :
    AscendsOperand limits depth (operand limits depth c) := by
  intro frames hframes hs
  have hsign : (Stack.mk (.sign :: frames) true).height = depth + 1 := congrArg Nat.succ hframes
  rw [← hframes] at hs
  have hnested : ∀ d : Cursor, d.unread < c.unread → Ascends limits.depth
      (d.nested limits depth fun deeper => operand limits deeper d)
      ⟨.sign :: frames, true⟩ ⟨Stack.settle frames, false⟩ :=
    fun d hd => .nested hsign fun hle => ih d hd _ _ hsign (hsign ▸ hle)
  rcases ht with rfl | rfl
  · rw [operand_plus h]
    exact .past hs h fun d hd => hnested d hd
  · rw [operand_minus h]
    exact .past hs h fun d hd => (hnested d hd).andThen fun hs inner f _ => .accept hs _ _

theorem ascends_number {value : Float} (h : c.token = some (.number value)) :
    AscendsOperand limits depth (operand limits depth c) := by
  intro frames hframes hs
  rw [← hframes] at hs
  rw [operand_number h]
  split_ifs
  · exact .error hs rfl nofun
  · exact .past hs h fun d _ => .ok (Nat.le_trans (Stack.length_settle_le frames) hs) _

theorem ascends_name {name : String} (h : c.token = some (.name name))
    (ih : ∀ d : Cursor, d.unread < c.unread → ∀ f : Cursor, f.unread < d.unread → ∀ deeper,
      AscendsArguments limits deeper (arguments limits deeper f)) :
    AscendsOperand limits depth (operand limits depth c) := by
  intro frames hframes hs
  have hparen : (Stack.mk (.paren :: frames) true).height = depth + 1 := congrArg Nat.succ hframes
  rw [← hframes] at hs
  rw [operand_name h]
  refine .past hs h fun d hd => ?_
  split_ifs with hopen
  · have hname : (Stack.mk frames true).step (.name name) d.token = ⟨frames, false⟩ := by
      rw [hopen]
      rfl
    rw [hname]
    refine .past hs hopen fun f hf => .andThen ?_ fun hs inner g _ => .accept hs _ _
    exact .nested hparen fun hle => ih d hd f hf _ frames hparen (hparen ▸ hle)
  · have hname : (Stack.mk frames true).step (.name name) d.token =
        ⟨Stack.settle frames, false⟩ := by
      simp only [Stack.step, Stack.framesAfter, if_neg hopen]
      rfl
    rw [hname]
    exact .accept (Nat.le_trans (Stack.length_settle_le frames) hs) _ _

theorem ascends_openParen (h : c.token = some .openParen)
    (ih : ∀ d : Cursor, d.unread < c.unread → ∀ deeper,
      AscendsLevel limits deeper (level .sum limits deeper d)) :
    AscendsOperand limits depth (operand limits depth c) := by
  intro frames hframes hs
  have hparen : (Stack.mk (.paren :: frames) true).height = depth + 1 := congrArg Nat.succ hframes
  rw [← hframes] at hs
  have hnested : ∀ d : Cursor, d.unread < c.unread → Ascends limits.depth
      (d.nested limits depth fun deeper => level .sum limits deeper d)
      ⟨.paren :: frames, true⟩ ⟨.paren :: frames, false⟩ :=
    fun d hd => .nested hparen fun hle => ih d hd _ _ hparen (hparen ▸ hle) rfl
  rw [operand_openParen h]
  refine .past hs h fun d hd => (hnested d hd).andThen fun hs inner f _ => ?_
  exact (Ascends.closing hs).andThen fun hs _ g _ => .ok hs _

theorem ascends_level {l : Level} (hl : l ≠ .operand)
    (ih : AscendsLevel limits depth (level l.below limits depth c))
    (ihc : ∀ (first : Subtree) (d : Cursor), d.unread ≤ c.unread →
      AscendsChain limits depth (chain l limits depth first d)) :
    AscendsLevel limits depth (level l limits depth c) := by
  intro frames hframes hs hsettled
  rw [level_joined hl]
  refine (ih frames hframes hs hsettled).andThen fun _ first d hd => ?_
  exact ihc first d hd frames hframes hs hsettled

theorem ascends_chain_some {l : Level} {left : Subtree} {o : Operator} (h : c.operator? l = some o)
    (ih : ∀ d : Cursor, d.unread < c.unread →
      AscendsLevel limits depth (level l.below limits depth d))
    (ihc : ∀ d : Cursor, d.unread < c.unread → ∀ f : Cursor, f.unread ≤ d.unread → ∀ left,
      AscendsChain limits depth (chain l limits depth left f)) :
    AscendsChain limits depth (chain l limits depth left c) := by
  intro frames hframes hs hsettled
  obtain ⟨ht, rfl⟩ := operator?_eq_some_iff.1 h
  -- behind an operand a sign is an operator and opens nothing
  have hoperator : ∀ next, (Stack.mk frames false).step o.token next = ⟨frames, true⟩ := by
    intro next
    cases o <;> rfl
  rw [chain_some h]
  refine .past (hframes ▸ hs : frames.length ≤ _) ht fun d hd => ?_
  rw [hoperator]
  refine (ih d hd frames hframes hs hsettled).andThen fun hle right f hf => ?_
  refine (Ascends.accept hle _ _).andThen fun _ left g hg => ?_
  exact ihc d hd g (Nat.le_trans hg hf) left frames hframes hs hsettled

theorem ascends_arguments_nil (h : c.token = some .closeParen) :
    AscendsArguments limits depth (arguments limits depth c) := by
  intro frames hframes hs
  rw [← hframes] at hs
  rw [arguments, dif_pos h]
  have hsettled : (Stack.settle frames).length ≤ limits.depth :=
    Nat.le_trans (Stack.length_settle_le frames) (Nat.le_of_succ_le hs)
  exact .past hs h fun d _ => .ok hsettled _

theorem ascends_someArguments (ih : AscendsLevel limits depth (level .sum limits depth c))
    (ihs : ∀ d : Cursor, d.unread ≤ c.unread → ∀ f : Cursor, f.unread < d.unread →
      AscendsArguments limits depth (someArguments limits depth f)) :
    AscendsArguments limits depth (someArguments limits depth c) := by
  intro frames hframes hs
  rw [someArguments]
  refine (ih (.paren :: frames) hframes hs rfl).andThen fun hle first d hd => ?_
  split_ifs with hcomma
  · have hothers : Ascends limits.depth
        (d.past (by simp [hcomma]) fun f _ => someArguments limits depth f)
        ⟨.paren :: frames, false⟩ ⟨Stack.settle frames, false⟩ :=
      .past hle hcomma fun f hf => ihs d hd f hf frames hframes hs
    exact hothers.andThen fun hs p f _ => .ok hs _
  · exact (Ascends.closing hle).andThen fun hs _ f _ => .ok hs _

/-- **All productions take the stack where a completed operand takes it**, or get stuck where it is
too high. -/
theorem ascends (limits : Limits) :
    (∀ depth c, AscendsOperand limits depth (operand limits depth c)) ∧
    (∀ l depth c, AscendsLevel limits depth (level l limits depth c)) ∧
    (∀ l depth left c, AscendsChain limits depth (chain l limits depth left c)) ∧
    (∀ depth c, AscendsArguments limits depth (arguments limits depth c)) ∧
    ∀ depth c, AscendsArguments limits depth (someArguments limits depth c) := by
  refine productions_induction
    (fun depth c => AscendsOperand limits depth (operand limits depth c))
    (fun l depth c => AscendsLevel limits depth (level l limits depth c))
    (fun l depth left c => AscendsChain limits depth (chain l limits depth left c))
    (fun depth c => AscendsArguments limits depth (arguments limits depth c))
    (fun depth c => AscendsArguments limits depth (someArguments limits depth c))
    ?sign ?number ?name ?group ?finish ?other ?operand ?joined ?last ?operator ?noArguments
    ?arguments ?someArguments
  case sign => exact fun depth c t h ht ih => ascends_sign h ht ih
  case number => exact fun depth c value h => ascends_number h
  case name => exact fun depth c name h ih => ascends_name h ih
  case group => exact fun depth c h ih => ascends_openParen h ih
  case finish =>
    intro depth c h frames hframes hs
    rw [operand_none h]
    exact .error (hframes ▸ hs : frames.length ≤ _) rfl nofun
  case other =>
    intro depth c t h ht frames hframes hs
    rw [operand_other h ht]
    exact .error (hframes ▸ hs : frames.length ≤ _) rfl nofun
  case operand =>
    intro depth c ih frames hframes hs hsettled
    have hoperand := ih frames hframes hs
    rwa [hsettled, ← level_operand] at hoperand
  case joined => exact fun l depth c hl ih ihc => ascends_level hl ih ihc
  case last =>
    intro l depth left c h frames hframes hs _
    rw [chain_none h]
    exact .ok (hframes ▸ hs : frames.length ≤ _) left
  case operator => exact fun l depth left c o h ih ihc => ascends_chain_some h ih ihc
  case noArguments => exact fun depth c h => ascends_arguments_nil h
  case arguments =>
    intro depth c h ih
    rwa [arguments, dif_neg h]
  case someArguments => exact fun depth c ih ihs => ascends_someArguments ih ihs

end Cursor

end Formula
