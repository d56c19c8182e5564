import Mathlib.Tactic.SplitIfs
import Formula.Proofs.MachineSteps
import Formula.Proofs.Progress

/-!
# Runs of a machine

* `operand_plus`, …, `someArguments_succ`: what a production of a machine does at a token.
* `Ends`: with enough calls, and with a capacity for all that is ahead, a production comes to what
  it comes to without a machine. `EndsOperand`, `EndsLevel`, `EndsChain`, `EndsArguments`,
  `EndsSomeArguments`: the statements, each with its number of calls.
* **`Machine.ends`**: all productions do, and so does a formula up to the end of the source
  (`Machine.ends_expression`).
-/

namespace Formula

theorem Limits.eq_of_accept {limits : Limits} {position height : Nat} {e : Expr} {t : Subtree}
    (h : limits.accept position e height = .ok t) : t = ⟨e, height⟩ := by
  unfold accept at h
  split_ifs at h
  cases h
  rfl

namespace Machine

variable {capacity n : Nat} {limits : Limits} {m : Machine}

/-! ## Equations -/

section Equations

theorem operand_plus (h : m.cursor.token = some .plus) :
    operand capacity limits (n + 1) m =
      (advance >>= fun _ => nested capacity limits (operand capacity limits n)) m := by
  obtain ⟨⟨_, _, _, _⟩, _, _⟩ := m
  cases h
  rfl

theorem operand_minus (h : m.cursor.token = some .minus) :
    operand capacity limits (n + 1) m =
      (advance >>= fun _ => nested capacity limits (operand capacity limits n) >>= fun inner =>
        next capacity inner.height >>= fun height => accept limits (.neg inner.expr) height) m := by
  obtain ⟨⟨_, _, _, _⟩, _, _⟩ := m
  cases h
  rfl

theorem operand_number {value : Float} (h : m.cursor.token = some (.number value)) :
    operand capacity limits (n + 1) m =
      (accept limits (.number value) 1 >>= fun leaf => advance >>= fun _ => pure leaf) m := by
  obtain ⟨⟨_, _, _, _⟩, _, _⟩ := m
  cases h
  rfl

theorem operand_name {name : String} (h : m.cursor.token = some (.name name)) :
    operand capacity limits (n + 1) m =
      (advance >>= fun _ => here >>= fun d =>
        if d.token = some .openParen then
          advance >>= fun _ =>
            nested capacity limits (arguments capacity limits n) >>= fun found =>
              next capacity found.2 >>= fun height => accept limits (.call name found.1) height
        else accept limits (.var name) 1) m := by
  obtain ⟨⟨_, _, _, _⟩, _, _⟩ := m
  cases h
  rfl

theorem operand_openParen (h : m.cursor.token = some .openParen) :
    operand capacity limits (n + 1) m =
      (advance >>= fun _ => nested capacity limits (level capacity limits .sum n) >>= fun inner =>
        closing >>= fun _ => pure inner) m := by
  obtain ⟨⟨_, _, _, _⟩, _, _⟩ := m
  cases h
  rfl

theorem operand_none (h : m.cursor.token = none) :
    operand capacity limits (n + 1) m = fail (.unexpectedEnd m.cursor.position) m := by
  obtain ⟨⟨_, _, _, _⟩, _, _⟩ := m
  cases h
  rfl

theorem operand_other {t : Token} (h : m.cursor.token = some t)
    (ht : t = .star ∨ t = .slash ∨ t = .closeParen ∨ t = .comma) :
    operand capacity limits (n + 1) m =
      fail (.unexpectedToken (Token.describe (some t)) m.cursor.position) m := by
  obtain ⟨⟨_, _, _, _⟩, _, _⟩ := m
  cases h
  rcases ht with rfl | rfl | rfl | rfl <;> rfl

theorem level_joined {l : Level} (h : l ≠ .operand) :
    level capacity limits l (n + 1) =
      level capacity limits l.below n >>= fun first => chain capacity limits l first n := by
  cases l with
  | operand => exact (h rfl).elim
  | product => rfl
  | sum => rfl

theorem chain_none {l : Level} {left : Subtree} (h : m.cursor.operator? l = none) :
    chain capacity limits l left (n + 1) m = (pure left : Run Subtree) m := by
  rw [chain, here_bind, h]

theorem chain_some {l : Level} {left : Subtree} {o : Operator} (h : m.cursor.operator? l = some o) :
    chain capacity limits l left (n + 1) m =
      (note .round >>= fun _ => advance >>= fun _ =>
        level capacity limits l.below n >>= fun right =>
          next capacity (max left.height right.height) >>= fun height =>
            accept limits (.binary o left.expr right.expr) height >>= fun left =>
              chain capacity limits l left n) m := by
  rw [chain, here_bind, h]

end Equations

/-! ## Statements -/

/-- From `calls` calls on `run` comes to what the reading `r` comes to, on each machine that stands
where `r` starts and has a capacity for the items ahead. -/
def Ends {α : Type} (capacity depth calls : Nat) (run : Nat → Run α) {c : Cursor}
    (r : Reading c α) : Prop :=
  ∀ m : Machine, m.cursor = c → m.depth = depth → m.Orderly → c.unread ≤ capacity →
    ∀ n, calls ≤ n → Completes (run n) m r.1

section Statements

variable (capacity : Nat) (limits : Limits) (depth : Nat) (c : Cursor)

/-- With six calls for each item ahead, and one more, an operand is read. -/
def EndsOperand : Prop :=
  Ends capacity depth (6 * c.unread + 1) (operand capacity limits) (c.operand limits depth)

/-- A formula of a level takes one call more for each level. -/
def EndsLevel (l : Level) : Prop :=
  Ends capacity depth (6 * c.unread + l.rank + 2) (level capacity limits l)
    (c.level l limits depth)

/-- The tree that a chain goes on with is no higher than the capacity leaves room for. -/
def EndsChain (l : Level) (left : Subtree) : Prop :=
  ∀ m : Machine, m.cursor = c → m.depth = depth → m.Orderly → m.Passed →
    left.height + c.unread ≤ capacity →
      ∀ n, 6 * c.unread + 1 ≤ n →
        Completes (chain capacity limits l left n) m (c.chain l limits depth left).1

/-- With six calls for each item ahead, and six more, the arguments of a call are read. -/
def EndsArguments : Prop :=
  Ends capacity depth (6 * c.unread + 6) (arguments capacity limits) (c.arguments limits depth)

/-- Five more are enough where there is an argument. -/
def EndsSomeArguments : Prop :=
  Ends capacity depth (6 * c.unread + 5) (someArguments capacity limits)
    (c.someArguments limits depth)

end Statements

/-! ## Productions -/

variable {depth : Nat} {c : Cursor}

theorem ends_sign (hlimit : limits.depth ≤ capacity) {t : Token} (h : c.token = some t)
    (ht : t = .plus ∨ t = .minus)
    (ih : ∀ d : Cursor, d.unread < c.unread → ∀ deeper, EndsOperand capacity limits deeper d) :
    EndsOperand capacity limits depth c := by
  rintro m rfl rfl hm hcapacity (_ | n) hn
  · omega
  have hnested : ∀ m', m.Advanced m' →
      Completes (nested capacity limits (operand capacity limits n)) m'
        (m'.cursor.nested limits m.depth fun deeper => m'.cursor.operand limits deeper).1 := by
    intro m' hm'
    have hlt := hm'.unread
    rw [← hm'.depth]
    refine completes_nested hm'.orderly hm'.passed hm'.last hlimit fun m'' hcursor hdepth hm'' => ?_
    exact ih _ hlt _ m'' hcursor hdepth hm'' (by omega) n (by omega)
  rcases ht with rfl | rfl
  · rw [Cursor.operand_plus h]
    exact (completes_past hm hnested).congr (operand_plus h)
  · rw [Cursor.operand_minus h]
    refine (completes_past hm fun m' hm' => ?_).congr (operand_minus h)
    refine (hnested m' hm').bind fun inner m'' hd hinner _ hm'' hpassed => ?_
    -- the operand is no higher than the items behind the sign are many
    have hheight := (Cursor.measures_nested fun deeper =>
      (Cursor.measures limits).1 deeper m'.cursor).of_ok hinner
    have := hheight.passed
    have := hm'.unread
    exact completes_next (by omega) (completes_accept hm'' hpassed _ _)

theorem ends_number {value : Float} (h : c.token = some (.number value)) :
    EndsOperand capacity limits depth c := by
  rintro m rfl rfl hm - (_ | n) hn
  · omega
  refine .congr ?_ (operand_number h)
  rw [Cursor.operand_number h]
  have hleaf : accept limits (.number value) 1 m =
      .ok (limits.accept m.cursor.position (.number value) 1, m) := rfl
  rw [Completes, bind_eq hleaf, Limits.accept]
  by_cases hlimit : limits.height < 1
  · rw [if_pos hlimit, if_pos hlimit]
    exact completes_fail hm _
  · rw [if_neg hlimit, if_neg hlimit]
    exact completes_past hm fun m' hm' => completes_ok hm'.orderly hm'.passed _

theorem ends_name (hlimit : limits.depth ≤ capacity) {name : String}
    (h : c.token = some (.name name))
    (ih : ∀ d : Cursor, d.unread < c.unread → ∀ f : Cursor, f.unread < d.unread → ∀ deeper,
      EndsArguments capacity limits deeper f) : EndsOperand capacity limits depth c := by
  rintro m rfl rfl hm hcapacity (_ | n) hn
  · omega
  rw [Cursor.operand_name h]
  refine (completes_past hm fun m' hm' => ?_).congr (operand_name h)
  show Completes (if m'.cursor.token = some .openParen then _ else _) m' _
  have hlt := hm'.unread
  rw [← hm'.depth]
  split_ifs with hopen
  · refine completes_past hm'.orderly fun m'' hm'' => ?_
    have hlt' := hm''.unread
    rw [← hm''.depth]
    refine Completes.bind ?_ fun found f hd hfound _ hf hpassed => ?_
    · refine completes_nested hm''.orderly hm''.passed hm''.last hlimit ?_
      intro g hcursor hdepth hg
      exact ih _ hlt _ hlt' _ g hcursor hdepth hg (by omega) n (by omega)
    · -- the arguments are no higher than the items behind the parenthesis are many
      have hheight := (Cursor.measures_nested fun deeper =>
        (Cursor.measures limits).2.2.2.1 deeper m''.cursor).of_ok hfound
      have := hheight.passed
      exact completes_next (by omega) (completes_accept hf hpassed _ _)
  · exact completes_accept hm'.orderly hm'.passed _ _

theorem ends_openParen (hlimit : limits.depth ≤ capacity) (h : c.token = some .openParen)
    (ih : ∀ d : Cursor, d.unread < c.unread → ∀ deeper,
      EndsLevel capacity limits deeper d .sum) : EndsOperand capacity limits depth c := by
  rintro m rfl rfl hm hcapacity (_ | n) hn
  · omega
  rw [Cursor.operand_openParen h]
  refine (completes_past hm fun m' hm' => ?_).congr (operand_openParen h)
  have hlt := hm'.unread
  rw [← hm'.depth]
  refine Completes.bind ?_ fun inner f _ _ _ hf _ => ?_
  · refine completes_nested hm'.orderly hm'.passed hm'.last hlimit fun m'' hcursor hdepth hm'' => ?_
    refine ih _ hlt _ m'' hcursor hdepth hm'' (by omega) n ?_
    simp only [Level.rank]
    omega
  · exact (completes_closing hf).bind fun _ g _ _ _ hg hpassed => completes_ok hg hpassed _

theorem ends_level {l : Level} (hl : l ≠ .operand)
    (ih : EndsLevel capacity limits depth c l.below)
    (ihc : ∀ (first : Subtree) (d : Cursor), d.unread ≤ c.unread →
      EndsChain capacity limits depth d l first) : EndsLevel capacity limits depth c l := by
  rintro m rfl rfl hm hcapacity (_ | n) hn
  · omega
  have hrank : l.below.rank + 1 = l.rank := by
    cases l with
    | operand => exact (hl rfl).elim
    | product => rfl
    | sum => rfl
  rw [Cursor.level_joined hl, level_joined hl]
  refine Completes.bind (ih m rfl rfl hm hcapacity n (by omega)) ?_
  intro first m' hd hfirst hdepth hm' hpassed
  have := (Cursor.measured_level hfirst).passed
  exact ihc first _ hd m' rfl hdepth hm' hpassed (by omega) n (by omega)

theorem ends_chain_some {l : Level} {left : Subtree} {o : Operator} (h : c.operator? l = some o)
    (ih : ∀ d : Cursor, d.unread < c.unread → EndsLevel capacity limits depth d l.below)
    (ihc : ∀ d : Cursor, d.unread < c.unread → ∀ f : Cursor, f.unread ≤ d.unread → ∀ left,
      EndsChain capacity limits depth f l left) : EndsChain capacity limits depth c l left := by
  rintro m rfl rfl hm hpassed hcapacity (_ | n) hn
  · omega
  have hrank : l.below.rank ≤ 1 := by cases l <;> decide
  refine .congr ?_ (chain_some h)
  rw [Cursor.chain_some h]
  refine completes_round hm hpassed fun log hlog => completes_past hlog fun m' hm' => ?_
  have hlt : m'.cursor.unread < m.cursor.unread := hm'.unread
  have hdepth : m'.depth = m.depth := hm'.depth
  refine Completes.bind (ih _ hlt m' rfl hdepth hm'.orderly (by omega) n (by omega)) ?_
  intro right f hle hright hdepth' hf hpassed
  -- no operand is higher than the items ahead of the operator are many
  have := (Cursor.measured_level hright).passed
  refine completes_next (by omega) (Completes.bind (completes_accept hf hpassed _ _) ?_)
  intro both g hle' hboth hdepth'' hg hpassed
  obtain rfl := Limits.eq_of_accept (Prod.mk.inj hboth).1
  have hcursor : f.cursor = g.cursor := (Prod.mk.inj hboth).2
  refine ihc _ hlt _ (Nat.le_trans hle' hle) _ g rfl ?_ hg hpassed ?_ n ?_
  · rw [hdepth'', hdepth', hdepth]
  · rw [← hcursor]
    show max left.height right.height + 1 + f.cursor.unread ≤ capacity
    omega
  · rw [← hcursor]
    omega

theorem ends_chain_none {l : Level} {left : Subtree} (h : c.operator? l = none) :
    EndsChain capacity limits depth c l left := by
  rintro m rfl rfl hm hpassed - (_ | n) hn
  · omega
  rw [Cursor.chain_none h]
  exact (completes_ok hm hpassed left).congr (chain_none h)

theorem ends_arguments_nil (h : c.token = some .closeParen) :
    EndsArguments capacity limits depth c := by
  rintro m rfl rfl hm - (_ | n) hn
  · omega
  rw [Cursor.arguments, dif_pos h]
  show Completes (if m.cursor.token = some .closeParen then _ else _) m _
  rw [if_pos h]
  exact completes_past hm fun m' hm' => completes_ok hm'.orderly hm'.passed _

theorem ends_arguments_some (h : c.token ≠ some .closeParen)
    (ih : EndsSomeArguments capacity limits depth c) : EndsArguments capacity limits depth c := by
  rintro m rfl rfl hm hcapacity (_ | n) hn
  · omega
  rw [Cursor.arguments, dif_neg h]
  show Completes (if m.cursor.token = some .closeParen then _ else _) m _
  rw [if_neg h]
  exact ih m rfl rfl hm hcapacity n (by omega)

theorem ends_someArguments (ih : EndsLevel capacity limits depth c .sum)
    (ihs : ∀ d : Cursor, d.unread ≤ c.unread → ∀ f : Cursor, f.unread < d.unread →
      EndsSomeArguments capacity limits depth f) :
    EndsSomeArguments capacity limits depth c := by
  rintro m rfl rfl hm hcapacity (_ | n) hn
  · omega
  rw [Cursor.someArguments]
  refine Completes.bind (ih m rfl rfl hm hcapacity n ?_) fun first d hle _ hdepth hd hpassed => ?_
  · simp only [Level.rank]
    omega
  show Completes (if d.cursor.token = some .comma then _ else _) d _
  split_ifs with ht
  · have hgroup : (advance >>= fun _ => note .round >>= fun _ =>
        someArguments capacity limits n >>= fun others =>
          (pure (first.expr :: others.1, max first.height others.2) : Run _)) =
        (advance >>= fun _ => note .round >>= fun _ => someArguments capacity limits n) >>=
          fun others => pure (first.expr :: others.1, max first.height others.2) := by
      simp only [bind_assoc]
    refine Completes.congr ?_ (congrFun hgroup d)
    refine Completes.bind (completes_past hd fun m' hm' => ?_) fun others g _ _ _ hg hpassed =>
      completes_ok hg hpassed _
    have hlt := hm'.unread
    refine completes_round hm'.orderly hm'.passed fun log hlog => ?_
    exact ihs _ hle _ hlt { m' with log } rfl (hm'.depth.trans hdepth) hlog (by omega) n (by omega)
  · exact (completes_closing hd).bind fun _ g _ _ _ hg hpassed => completes_ok hg hpassed _

/-- **All productions end on a machine**, and come to what they come to without one. -/
theorem ends (hlimit : limits.depth ≤ capacity) :
    (∀ depth c, EndsOperand capacity limits depth c) ∧
    (∀ l depth c, EndsLevel capacity limits depth c l) ∧
    (∀ l depth left c, EndsChain capacity limits depth c l left) ∧
    (∀ depth c, EndsArguments capacity limits depth c) ∧
    ∀ depth c, EndsSomeArguments capacity limits depth c := by
  refine Cursor.productions_induction (EndsOperand capacity limits)
    (fun l depth c => EndsLevel capacity limits depth c l)
    (fun l depth left c => EndsChain capacity limits depth c l left)
    (EndsArguments capacity limits) (EndsSomeArguments capacity limits)
    ?sign ?number ?name ?group ?finish ?other ?operand ?joined ?last ?operator ?noArguments
    ?arguments ?someArguments
  case sign => exact fun depth c t h ht ih => ends_sign hlimit h ht ih
  case number => exact fun depth c value h => ends_number h
  case name => exact fun depth c name h ih => ends_name hlimit h ih
  case group => exact fun depth c h ih => ends_openParen hlimit h ih
  case finish =>
    rintro depth c h m rfl rfl hm - (_ | n) hn
    · omega
    rw [Cursor.operand_none h]
    exact (completes_fail hm _).congr (operand_none h)
  case other =>
    rintro depth c t h ht m rfl rfl hm - (_ | n) hn
    · omega
    rw [Cursor.operand_other h ht]
    exact (completes_fail hm _).congr (operand_other h ht)
  case operand =>
    rintro depth c ih m rfl rfl hm hcapacity (_ | n) hn
    · omega
    rw [Cursor.level_operand]
    exact ih m rfl rfl hm hcapacity n (by simp only [Level.rank] at hn; omega)
  case joined => exact fun l depth c hl ih ihc => ends_level hl ih ihc
  case last => exact fun l depth left c h => ends_chain_none h
  case operator => exact fun l depth left c o h ih ihc => ends_chain_some h ih ihc
  case noArguments => exact fun depth c h => ends_arguments_nil h
  case arguments => exact fun depth c h ih => ends_arguments_some h ih
  case someArguments => exact fun depth c ih ihs => ends_someArguments ih ihs

/-- **A formula up to the end of the source is read on a machine** as it is without one. -/
theorem ends_expression (hlimit : limits.depth ≤ capacity) (hcapacity : c.unread ≤ capacity)
    (hn : 6 * c.unread + 4 ≤ n) :
    Completes (expression capacity limits n) ⟨c, 0, []⟩ (c.expression limits) := by
  rw [Cursor.expression_eq_whole]
  refine Completes.bind ((ends hlimit).2.1 .sum 0 c _ rfl rfl (orderly_start c 0) hcapacity n hn) ?_
  rintro tree ⟨⟨_ | token, position, rest, finish⟩, depth, log⟩ - - - hm hpassed
  · exact completes_ok hm hpassed _
  · exact completes_fail hm _

end Machine

end Formula
