import Mathlib.Tactic.SplitIfs
import Formula.Proofs.Halts

/-!
# What the productions read

* `Built`: a tree with what is known of it once it is read.
* `ReadsTree`, `ReadsChain`, `ReadsArguments`: the statements on the productions.
* **`reads`**: all productions have them.
-/

namespace Formula

/-! ## Statements -/

/-- The tree `t` of a level is spelled `ts` and is within the limits, `depth` levels deep. -/
structure Built (limits : Limits) (depth : Nat) (l : Level) (t : Subtree) (ts : List Token) :
    Prop where
  spelled : ∃ n, (Phrase.tree l t.expr).Spelled ts n ∧ depth + n ≤ limits.depth
  height : t.height = t.expr.height
  height_le : t.height ≤ limits.height

namespace Place

/-- An operand is needed, and nothing else fits. -/
def Awaits (next : Option Token) (p : Place) : Prop :=
  p.needsOperand ∧ (next = some .closeParen → p.step .closeParen = none)

end Place

namespace Cursor

variable (limits : Limits) (depth : Nat)

/-- A tree of a level is read behind the tokens `ts`, which belong to it. -/
def ReadTree (l : Level) (ts : List Token) (c : Cursor) (t : Subtree) (d : Cursor) : Prop :=
  ∃ us, c.Passes us d ∧ Built limits depth l t (ts ++ us) ∧ Halts l (ts ++ us) d.token

/-- Arguments are read, and the parenthesis behind them. -/
def ReadArguments (ph : List Expr → Phrase) (c : Cursor) (r : List Expr × Nat) (d : Cursor) :
    Prop :=
  ∃ ts n, c.Passes (ts ++ [.closeParen]) d ∧ (ph r.1).Spelled ts n ∧ depth + n ≤ limits.depth ∧
    r.2 = Expr.heights r.1

/-- The statement on the productions that read a formula of a level. -/
def ReadsTree (l : Level) {c : Cursor} (r : Reading c Subtree) : Prop :=
  depth ≤ limits.depth →
    r.Yields (ReadTree limits depth l [] c) (Fails (Sentence l) (Place.Awaits c.token) c)

/-- The statement on the production that goes on with a formula of a level. -/
def ReadsChain (l : Level) (left : Subtree) {c : Cursor} (r : Reading c Subtree) : Prop :=
  ∀ ts, Built limits depth l left ts → Halts l.below ts c.token →
    r.Yields (ReadTree limits depth l ts c)
      (Fails (fun us => Sentence l (ts ++ us)) (fun p => p.needsOperand = false) c)

/-- The tokens of arguments and of the parenthesis behind them. -/
def Closed (ph : List Expr → Phrase) (us : List Token) : Prop :=
  ∃ es ts n, (ph es).Spelled ts n ∧ us = ts ++ [.closeParen]

/-- The statement on the productions that read arguments. -/
def ReadsArguments (ph : List Expr → Phrase) (S : Place → Prop) {c : Cursor}
    (r : Reading c (List Expr × Nat)) : Prop :=
  depth ≤ limits.depth → r.Yields (ReadArguments limits depth ph c) (Fails (Closed ph) S c)

end Cursor

/-! ## Lemmas on the statements -/

theorem Built.ne_nil {limits : Limits} {depth : Nat} {l : Level} {t : Subtree} {ts : List Token}
    (h : Built limits depth l t ts) : ts ≠ [] := by
  obtain ⟨n, hn, -⟩ := h.spelled
  exact Place.ne_nil_of_spelled hn

namespace Place

theorem awaits_of_before {next : Option Token} {p : Place} {t : Token} (hp : p.before = some t)
    (ht : ¬ t.endsOperand) (ho : t ≠ .openParen) : p.Awaits next := by
  refine ⟨by simp [needsOperand, hp, ht], fun _ => ?_⟩
  obtain ⟨opened, before⟩ := p
  cases hp
  cases opened with
  | nil => rfl
  | cons opening opened => simp [step, openedAfter, needsOperand, ht, ho]

theorem awaits_group (next : Option Token) (opened : List Opening) :
    Awaits next ⟨.group :: opened, some .openParen⟩ :=
  ⟨rfl, fun _ => rfl⟩

theorem awaits_of_operator {p : Place} (hp : p.needsOperand = false) (o : Operator) :
    ∃ q, p.step o.token = some q ∧ ∀ next, q.Awaits next := by
  refine ⟨_, step_operator hp o, fun next => awaits_of_before rfl ?_ ?_⟩
  · cases o <;> decide
  · cases o <;> decide

theorem scan_operator {p : Place} {l : Level} {e : Expr} {ts : List Token} {n : Nat}
    (hp : p.needsOperand = false) (o : Operator) (h : (Phrase.tree l e).Spelled ts n) :
    ∃ q, p.scan (o.token :: ts) = some q ∧ q.needsOperand = false := by
  obtain ⟨q, hq, hA⟩ := awaits_of_operator hp o
  obtain ⟨t, -, ht, hs⟩ := scans_of_spelled h q (hA none).1
  exact ⟨_, (scan_cons_of hq).trans hs, not_needsOperand ht⟩

/-- Behind the parenthesis that opens a call. -/
def InCall (p : Place) : Prop := p.before = some .openParen ∧ p.opened.head? = some .call

/-- The place behind the formula `ts`, directly inside a parenthesis. -/
structure Behind (opening : Opening) (ts : List Token) (p : Place) : Prop where
  opened : p.opened.head? = some opening
  before : p.before = ts.getLast?
  needsOperand : p.needsOperand = false

theorem behind_of_spelled {l : Level} {e : Expr} {ts : List Token} {n : Nat} {p : Place}
    {opening : Opening} (h : (Phrase.tree l e).Spelled ts n) (hp : p.needsOperand)
    (ho : p.opened.head? = some opening) : ∃ q, p.scan ts = some q ∧ q.Behind opening ts := by
  obtain ⟨t, ht, he, hs⟩ := scans_of_spelled h p hp
  exact ⟨_, hs, ho, ht.symm, not_needsOperand he⟩

end Place

namespace Cursor

variable {limits : Limits} {depth : Nat} {c d : Cursor} {e : ParseError} {t : Subtree}
  {ts : List Token}

/-! ## Operands -/

theorem reads_sign {t : Token} (h : c.token = some t) (ht : t = .plus ∨ t = .minus)
    (hd : c.advance = (.ok (), d)) (he : Fails (Sentence .operand) (Place.Awaits d.token) d e) :
    Fails (Sentence .operand) (Place.Awaits c.token) c e := by
  refine he.prepend (.single h hd) ?_ fun p _ =>
    ⟨_, Place.scan_cons_of (Place.step_sign ht), Place.awaits_of_before rfl ?_ ?_⟩
  · rintro us ⟨f, n, hus⟩
    rw [← List.append_nil us] at hus
    rcases ht with rfl | rfl
    · exact ⟨[], f, _, .plus hus⟩
    · exact ⟨[], .neg f, _, .minus hus⟩
  · rcases ht with rfl | rfl <;> simp [Token.endsOperand]
  · rcases ht with rfl | rfl <;> simp

theorem reads_sign_bad {t : Token} {e : LexicalError} (h : c.token = some t)
    (ht : t = .plus ∨ t = .minus) (hd : c.advance = (.error e, d)) :
    Fails (Sentence .operand) (Place.Awaits c.token) c (.lexical e) := by
  refine .bad h hd ⟨[.number 0], ?_⟩ fun p _ => by rw [Place.step_sign ht]; rfl
  obtain ⟨f, n, hf⟩ := sentence_number .operand 0
  rcases ht with rfl | rfl
  · exact ⟨_, _, .plus hf⟩
  · exact ⟨_, _, .minus hf⟩

theorem reads_plus (h : c.token = some .plus)
    (ih : ∀ d : Cursor, d.unread < c.unread → ∀ deeper,
      ReadsTree limits deeper .operand (operand limits deeper d)) :
    ReadsTree limits depth .operand (operand limits depth c) := by
  intro _
  rw [operand_plus h]
  refine .past (fun d hlt hd => .nested (fun hdeep => ?_) fun _ => .of_isLimit rfl)
    fun e d hd => reads_sign_bad h (.inl rfl) hd
  refine (ih d hlt _ hdeep).mono ?_ fun e he => reads_sign h (.inl rfl) hd he
  rintro t f ⟨ts, hts, hb, hh⟩
  obtain ⟨n, hn, hle⟩ := hb.spelled
  exact ⟨.plus :: ts, .step h hd hts, ⟨⟨n + 1, .plus hn, by omega⟩, hb.height, hb.height_le⟩,
    (Halts.append_iff hb.ne_nil [.plus]).2 hh⟩

theorem reads_minus (h : c.token = some .minus)
    (ih : ∀ d : Cursor, d.unread < c.unread → ∀ deeper,
      ReadsTree limits deeper .operand (operand limits deeper d)) :
    ReadsTree limits depth .operand (operand limits depth c) := by
  intro _
  rw [operand_minus h]
  refine .past (fun d hlt hd => .andThen (P := ReadTree limits (depth + 1) .operand [] d) ?_ ?_)
    fun e d hd => reads_sign_bad h (.inr rfl) hd
  · refine .nested (fun hdeep => ?_) fun _ => .of_isLimit rfl
    exact (ih d hlt _ hdeep).mono_error fun e he => reads_sign h (.inr rfl) hd he
  · rintro t f - ⟨ts, hts, hb, hh⟩
    refine Reading.yields_accept (fun hle => ?_) fun _ => .of_isLimit rfl
    obtain ⟨n, hn, hlim⟩ := hb.spelled
    refine ⟨.minus :: ts, .step h hd hts, ⟨⟨n + 1, .minus hn, by omega⟩, ?_, hle⟩,
      (Halts.append_iff hb.ne_nil [.minus]).2 hh⟩
    rw [Expr.height, hb.height]

theorem reads_number {value : Float} (h : c.token = some (.number value)) :
    ReadsTree limits depth .operand (operand limits depth c) := by
  intro hdepth
  rw [operand_number h]
  split_ifs with hlim
  · exact .of_isLimit rfl
  · refine .past (fun d _ hd => ?_) fun e d hd => ?_
    · have hle : 1 ≤ limits.height := Nat.le_of_not_lt hlim
      refine ⟨[.number value], .single h hd, ⟨⟨0, .number value, hdepth⟩, ?_, hle⟩,
        Halts.of_operand fun _ => by simp [Token.isName]⟩
      rw [Expr.height]
    · exact .bad h hd ⟨[], sentence_number ..⟩ fun p hp => by rw [Place.step_number hp.1]; rfl

theorem reads_none (h : c.token = none) :
    ReadsTree limits depth .operand (operand limits depth c) := by
  intro _
  rw [operand_none h]
  refine .here ⟨_, sentence_number .operand 0⟩ fun p hp => ?_
  rw [h]
  refine ⟨.inl hp.1, ?_⟩
  rw [Place.fault, hp.1]
  rfl

theorem reads_other {t : Token} (h : c.token = some t)
    (ht : t = .star ∨ t = .slash ∨ t = .closeParen ∨ t = .comma) :
    ReadsTree limits depth .operand (operand limits depth c) := by
  intro _
  rw [operand_other h ht]
  refine .here ⟨_, sentence_number .operand 0⟩ fun p hp => ?_
  rw [h]
  refine ⟨?_, ?_⟩
  · rcases ht with rfl | rfl | rfl | rfl
    · simp [Place.Refuses, Place.step, Place.openedAfter, hp.1]
    · simp [Place.Refuses, Place.step, Place.openedAfter, hp.1]
    · exact hp.2 h
    · simp [Place.Refuses, Place.step, Place.openedAfter, hp.1]
  · rw [Place.fault, hp.1]
    rfl

/-! ## Parentheses -/

/-- Behind a sum inside a parenthesis it is closed, unless a comma separates arguments. -/
theorem reads_closing (opening : Opening) (hh : Halts .sum ts c.token)
    (hs : c.token = some .comma → opening ≠ .call) :
    c.closing.Yields (fun _ d => c.Passes [.closeParen] d)
      (Fails (· = [.closeParen]) (Place.Behind opening ts) c) := by
  refine .closing (fun d h hd => .single h hd) (fun e d h hd => ?_) fun h => ?_
  · refine .bad h hd ⟨[], rfl⟩ ?_
    rintro ⟨_ | ⟨_, opened⟩, before⟩ ⟨ho, -, hn⟩
    · cases ho
    · simp [Place.step, Place.openedAfter, hn]
  · refine .here ⟨_, rfl⟩ ?_
    rintro ⟨_ | ⟨_, opened⟩, before⟩ ⟨ho, hb, hn⟩
    · cases ho
    · cases ho
      refine ⟨Place.refuses_of_halts hn hb hh (by simp) (fun hc => absurd hc h) fun hc => ?_, ?_⟩
      · simpa using hs hc
      · rw [Place.fault, hn]
        cases c.token <;> rfl

theorem reads_openParen (h : c.token = some .openParen)
    (ih : ∀ d : Cursor, d.unread < c.unread → ∀ deeper,
      ReadsTree limits deeper .sum (level .sum limits deeper d)) :
    ReadsTree limits depth .operand (operand limits depth c) := by
  intro _
  rw [operand_openParen h]
  refine .past (fun d hlt hd => .andThen (P := ReadTree limits (depth + 1) .sum [] d) ?_ ?_)
    fun e d hd => ?_
  · refine .nested (fun hdeep => ?_) fun _ => .of_isLimit rfl
    refine (ih d hlt _ hdeep).mono_error fun e he => he.prepend (.single h hd) ?_
      fun p hp => ⟨_, Place.scan_cons_of (Place.step_group hp.1), Place.awaits_group ..⟩
    rintro us ⟨f, n, hus⟩
    exact ⟨[.closeParen], f, _, .group hus⟩
  · rintro t f - ⟨ts, hts, hb, hh⟩
    obtain ⟨n, hn, hlim⟩ := hb.spelled
    refine .andThen ((reads_closing .group hh fun _ => Opening.noConfusion).mono_error
      fun e he => he.prepend (.step h hd hts) ?_ fun p hp => ?_) ?_
    · rintro _ rfl
      exact ⟨[], t.expr, _, .group hn⟩
    · obtain ⟨q, hq, hqb⟩ := Place.behind_of_spelled
        (p := ⟨.group :: p.opened, some .openParen⟩) hn rfl rfl
      exact ⟨q, by rw [Place.scan_cons_of (Place.step_group hp.1), ← hq, List.nil_append], hqb⟩
    · intro _ g _ hg
      exact ⟨.openParen :: (ts ++ [.closeParen]), .step h hd (hts.trans hg),
        ⟨⟨n + 1, .group hn, by omega⟩, hb.height, hb.height_le⟩,
        Halts.of_closed (.openParen :: ts)⟩
  · exact .bad h hd ⟨[.number 0, .closeParen], _, _, .group (.sum (.product (.number 0)))⟩
      fun p hp => by rw [Place.step_group hp.1]; rfl

/-! ## Names and calls -/

theorem reads_call {name : String} (h : c.token = some (.name name)) (hd : c.advance = (.ok (), d))
    (hp : d.token = some .openParen)
    (ih : ∀ f : Cursor, f.unread < d.unread → ∀ deeper,
      ReadsArguments limits deeper .arguments Place.InCall (arguments limits deeper f)) :
    (d.past (by simp [hp]) fun d _ =>
      (d.nested limits depth fun deeper => arguments limits deeper d).andThen
        fun (inner, height) d _ =>
          .stay d (limits.accept d.position (.call name inner) (height + 1))).Yields
      (ReadTree limits depth .operand [] c)
      (Fails (Sentence .operand) (Place.Awaits c.token) c) := by
  refine .past (fun f hlt hf => .andThen (P := ReadArguments limits (depth + 1) .arguments f) ?_ ?_)
    fun e f hf => ?_
  · refine .nested (fun hdeep => ?_) fun _ => .of_isLimit rfl
    refine (ih f hlt _ hdeep).mono_error fun e he =>
      he.prepend (.step h hd (.single hp hf)) ?_ fun p hA =>
        ⟨_, Place.scan_cons_of (Place.step_name hA.1 name), rfl, rfl⟩
    rintro _ ⟨es, us, n, hus, rfl⟩
    exact ⟨[], .call name es, _, by simpa using .call name hus⟩
  · rintro ⟨es, height⟩ g - ⟨ts, n, hts, (hn : (Phrase.arguments es).Spelled ts n), hlim,
      (hheight : height = Expr.heights es)⟩
    refine Reading.yields_accept (fun hle => ?_) fun _ => .of_isLimit rfl
    refine ⟨.name name :: .openParen :: (ts ++ [Token.closeParen]), .step h hd (.step hp hf hts),
      ⟨⟨n + 1, .call name hn, by omega⟩, ?_, hle⟩, Halts.of_closed (.name name :: .openParen :: ts)⟩
    rw [Expr.height, ← hheight]
  · have hbad : Fails (· = [.openParen, .closeParen]) (fun p => p.before = some (.name name)) d
        (.lexical e) := by
      refine .bad hp hf ⟨_, rfl⟩ ?_
      rintro ⟨opened, _⟩ rfl
      rfl
    refine hbad.prepend (.single h hd) ?_ fun p hA =>
      ⟨_, Place.scan_cons_of (Place.step_name hA.1 name), rfl⟩
    rintro _ rfl
    exact ⟨[], _, _, .call name .none⟩

theorem reads_name {name : String} (h : c.token = some (.name name))
    (ih : ∀ d : Cursor, d.unread < c.unread → ∀ f : Cursor, f.unread < d.unread → ∀ deeper,
      ReadsArguments limits deeper .arguments Place.InCall (arguments limits deeper f)) :
    ReadsTree limits depth .operand (operand limits depth c) := by
  intro hdepth
  rw [operand_name h]
  refine .past (fun d hlt hd => ?_) fun e d hd => ?_
  · split_ifs with hp
    · exact reads_call h hd hp (ih d hlt)
    · refine Reading.yields_accept (fun hle => ?_) fun _ => .of_isLimit rfl
      refine ⟨[.name name], .single h hd, ⟨⟨0, .var name, hdepth⟩, ?_, hle⟩,
        Halts.of_operand fun hn => absurd hn hp⟩
      rw [Expr.height]
  · refine .bad h hd ⟨[], _, _, .var name⟩ fun p hA => ?_
    rw [Place.step_name hA.1]
    rfl

theorem reads_arguments_nil (h : c.token = some .closeParen) :
    ReadsArguments limits depth .arguments Place.InCall (arguments limits depth c) := by
  intro hdepth
  rw [arguments, dif_pos h]
  refine .past (fun d _ hd => ⟨[], 0, .single h hd, .none, hdepth, rfl⟩) fun e d hd => ?_
  refine .bad h hd ⟨[], [], [], 0, .none, rfl⟩ ?_
  rintro ⟨_ | ⟨_, opened⟩, _⟩ ⟨rfl, ho⟩
  · cases ho
  · cases ho
    rfl

/-- The place of an argument that is not missing. -/
def AwaitsArgument (next : Option Token) (p : Place) : Prop :=
  p.Awaits next ∧ p.opened.head? = some .call

theorem reads_arguments_some (h : c.token ≠ some .closeParen)
    (ih : ReadsArguments limits depth .someArguments (AwaitsArgument c.token)
      (someArguments limits depth c)) :
    ReadsArguments limits depth .arguments Place.InCall (arguments limits depth c) := by
  intro hdepth
  rw [arguments, dif_neg h]
  refine (ih hdepth).mono ?_ fun e he => he.mono ?_ ?_
  · rintro r d ⟨ts, n, hts, hn, hr⟩
    exact ⟨ts, n, hts, .some hn, hr⟩
  · rintro _ ⟨es, ts, n, hn, rfl⟩
    exact ⟨[], es, ts, n, .some hn, List.append_nil _⟩
  · rintro p ⟨hp, ho⟩
    exact ⟨⟨by rw [Place.needsOperand, hp]; rfl, fun hc => absurd hc h⟩, ho⟩

theorem closed_more {e : Expr} {n : Nat} (hn : (Phrase.tree .sum e).Spelled ts n) {us : List Token}
    (hus : Closed .someArguments us) : Closed .someArguments (ts ++ .comma :: us) := by
  obtain ⟨es, us, m, hm, rfl⟩ := hus
  exact ⟨e :: es, ts ++ .comma :: us, _, .more hn hm, by simp⟩

theorem step_comma_of_behind {p : Place} (hp : p.Behind .call ts) :
    ∃ q, p.step .comma = some q ∧ ∀ next, AwaitsArgument next q := by
  have hopened : p.openedAfter .comma = some p.opened := by
    simp [Place.openedAfter, hp.needsOperand, hp.opened]
  refine ⟨_, Place.step_eq hopened, fun next => ⟨?_, hp.opened⟩⟩
  exact Place.awaits_of_before rfl (by decide) (by decide)

theorem reads_comma {n : Nat} {t : Expr} (hn : (Phrase.tree .sum t).Spelled ts n)
    (h : c.token = some .comma)
    (ih : ∀ d : Cursor, d.unread < c.unread →
      ReadsArguments limits depth .someArguments (AwaitsArgument d.token)
        (someArguments limits depth d)) (hdepth : depth ≤ limits.depth) :
    (c.past (by simp [h]) fun d _ => someArguments limits depth d).Yields
      (fun r d => ∃ e, c.advance = (.ok (), e) ∧ ReadArguments limits depth .someArguments e r d)
      (Fails (fun us => Closed .someArguments (ts ++ us)) (Place.Behind .call ts) c) := by
  refine .past (fun d hlt hd => ?_) fun e d hd => ?_
  · refine (ih d hlt hdepth).mono (fun _ _ hr => ⟨d, hd, hr⟩) fun e he =>
      he.prepend (.single h hd) ?_ fun p hp => ?_
    · intro us hus
      exact ⟨[], by simpa using closed_more hn hus⟩
    · obtain ⟨q, hq, hA⟩ := step_comma_of_behind hp
      exact ⟨q, Place.scan_cons_of hq, hA _⟩
  · refine .bad h hd ⟨[.number 0, .closeParen], ?_⟩ fun p hp => ?_
    · exact closed_more hn ⟨_, _, _, .last (.sum (.product (.number 0))), rfl⟩
    · obtain ⟨q, hq, -⟩ := step_comma_of_behind hp
      rw [hq]
      rfl

theorem reads_someArguments
    (ih : ReadsTree limits depth .sum (level .sum limits depth c))
    (ihs : ∀ d : Cursor, d.unread ≤ c.unread → ∀ f : Cursor, f.unread < d.unread →
      ReadsArguments limits depth .someArguments (AwaitsArgument f.token)
        (someArguments limits depth f)) :
    ReadsArguments limits depth .someArguments (AwaitsArgument c.token)
      (someArguments limits depth c) := by
  intro hdepth
  rw [someArguments]
  refine .andThen ((ih hdepth).mono_error fun e he => he.mono ?_ fun p hp => hp.1) ?_
  · rintro us ⟨f, n, hus⟩
    exact ⟨[.closeParen], [f], us, n, .last hus, rfl⟩
  · rintro t d hle ⟨ts, hts, hb, hh⟩
    obtain ⟨n, hn, hlim⟩ := hb.spelled
    have hbehind : ∀ p, AwaitsArgument c.token p → ∃ q, p.scan ts = some q ∧ q.Behind .call ts :=
      fun p hp => Place.behind_of_spelled hn hp.1.1 hp.2
    split_ifs with hcomma
    · refine .andThen ((reads_comma hn hcomma (ihs d hle) hdepth).mono_error
        fun e he => he.prepend hts (fun us hus => ⟨[], by simpa using hus⟩) hbehind) ?_
      rintro ⟨es, height⟩ g - ⟨f, hf, us, m, hus, hm, hlim', hheight⟩
      have hm : (Phrase.someArguments es).Spelled us m := hm
      have hheight : height = Expr.heights es := hheight
      refine ⟨ts ++ .comma :: us, max n m, ?_, .more hn hm, by omega, ?_⟩
      · simpa using hts.trans (.step hcomma hf hus)
      · show max t.height height = max t.expr.height (Expr.heights es)
        rw [hb.height, hheight]
    · refine .andThen ((reads_closing .call hh fun hc => absurd hc hcomma).mono_error
        fun e he => he.prepend hts ?_ hbehind) ?_
      · rintro _ rfl
        exact ⟨[], [t.expr], ts, n, .last hn, by simp⟩
      · intro _ g _ hg
        refine ⟨ts, n, hts.trans hg, .last hn, hlim, ?_⟩
        show t.height = max t.expr.height 0
        rw [hb.height, Nat.max_zero]

/-! ## Levels -/

theorem reads_level {l : Level}
    (h : level l limits depth c =
      (level l.below limits depth c).andThen fun first d _ => chain l limits depth first d)
    (ih : ReadsTree limits depth l.below (level l.below limits depth c))
    (ihc : ∀ (first : Subtree) (d : Cursor), d.unread ≤ c.unread →
      ReadsChain limits depth l first (chain l limits depth first d)) :
    ReadsTree limits depth l (level l limits depth c) := by
  intro hdepth
  rw [h]
  refine .andThen ((ih hdepth).mono_error fun e he => he.mono ?_ fun p hp => hp) ?_
  · rintro us ⟨f, n, hus⟩
    exact ⟨[], f, n, by simpa using spelled_of_below hus⟩
  · rintro t d hle ⟨ts, hts, hb, hh⟩
    obtain ⟨n, hn, hlim⟩ := hb.spelled
    refine (ihc t d hle ts ⟨⟨n, spelled_of_below hn, hlim⟩, hb.height, hb.height_le⟩ hh).mono ?_ ?_
    · rintro t f ⟨us, hus, hb, hh⟩
      exact ⟨ts ++ us, hts.trans hus, hb, hh⟩
    · refine fun e he => he.prepend hts (fun us hus => ⟨[], by simpa using hus⟩) fun p hp => ?_
      obtain ⟨u, -, hu, hs⟩ := Place.scans_of_spelled hn p hp.1
      exact ⟨_, hs, Place.not_needsOperand hu⟩

theorem reads_chain_none {l : Level} {left : Subtree} (h : c.operator? l = none) :
    ReadsChain limits depth l left (chain l limits depth left c) := by
  intro ts hb hh
  rw [chain_none h]
  refine ⟨[], .refl c, by rwa [List.append_nil], ?_⟩
  rw [List.append_nil]
  exact hh.of_below h

theorem readTree_binary {o : Operator} {left : Subtree} {us : List Token} {height : Nat}
    {f : Cursor} (hb : Built limits depth o.level left ts) (ht : c.token = some o.token)
    (hd : c.advance = (.ok (), d)) (hus : d.Passes us f)
    (hb' : Built limits depth o.level.below t us)
    (hheight : height = max left.height t.height + 1) (hle : height ≤ limits.height) :
    c.Passes (o.token :: us) f ∧
      Built limits depth o.level ⟨.binary o left.expr t.expr, height⟩ (ts ++ o.token :: us) := by
  obtain ⟨n, hn, hlim⟩ := hb.spelled
  obtain ⟨m, hm, hlim'⟩ := hb'.spelled
  refine ⟨.step ht hd hus, ⟨_, .binary o hn hm, by omega⟩, ?_, hle⟩
  show height = max left.expr.height t.expr.height + 1
  rw [hheight, hb.height, hb'.height]

theorem reads_chain_some {l : Level} {left : Subtree} {o : Operator} (h : c.operator? l = some o)
    (ih : ∀ d : Cursor, d.unread < c.unread →
      ReadsTree limits depth l.below (level l.below limits depth d))
    (ihc : ∀ d : Cursor, d.unread < c.unread → ∀ f : Cursor, f.unread ≤ d.unread → ∀ left,
      ReadsChain limits depth l left (chain l limits depth left f)) :
    ReadsChain limits depth l left (chain l limits depth left c) := by
  intro ts hb hh
  obtain ⟨n, hn, hlim⟩ := hb.spelled
  obtain ⟨ht, rfl⟩ := operator?_eq_some_iff.1 h
  rw [chain_some h]
  refine .past (fun d hlt hd => .andThen (P := ReadTree limits depth o.level.below [] d) ?_ ?_)
    fun e d hd => ?_
  · refine (ih d hlt (by omega)).mono_error fun e he => he.prepend (.single ht hd) ?_
      fun p hp => ?_
    · rintro us ⟨f, m, hus⟩
      exact ⟨[], _, _, by simpa using Phrase.Spelled.binary o hn hus⟩
    · obtain ⟨q, hq, hA⟩ := Place.awaits_of_operator hp o
      exact ⟨q, Place.scan_cons_of hq, hA _⟩
  · rintro t f hle ⟨us, hus, hb', hh'⟩
    obtain ⟨m, hm, -⟩ := hb'.spelled
    refine .andThen (P := fun t' f' => f' = f ∧ t' = ⟨.binary o left.expr t.expr, t'.height⟩ ∧
      t'.height = max left.height t.height + 1 ∧ t'.height ≤ limits.height)
      (Reading.yields_accept (fun hle => ⟨rfl, rfl, rfl, hle⟩) fun _ => .of_isLimit rfl) ?_
    rintro t' g hg ⟨rfl, ht', hheight, hmax⟩
    obtain ⟨hpasses, hbuilt⟩ := readTree_binary hb ht hd hus hb' hheight hmax
    have hhalts : Halts o.level.below (ts ++ o.token :: us) g.token := by
      simpa using (Halts.append_iff hb'.ne_nil (ts ++ [o.token])).2 hh'
    -- what is built so far stands in front of all that the chain goes on with
    rw [ht']
    refine (ihc d hlt g hle _ _ hbuilt hhalts).mono ?_ fun e he =>
      he.prepend hpasses ?_ fun p hp => ?_
    · rintro r i ⟨vs, hvs, hr⟩
      refine ⟨o.token :: us ++ vs, hpasses.trans hvs, ?_⟩
      rwa [← List.append_assoc]
    · intro vs hvs
      exact ⟨[], by simpa using hvs⟩
    · exact Place.scan_operator hp o hm
  · obtain ⟨f, m, hf⟩ := sentence_number o.level.below 0
    refine .bad ht hd ⟨[.number 0], _, _, .binary o hn hf⟩ fun p hp => ?_
    rw [Place.step_operator hp o]
    rfl

/-! ## All productions -/

/-- **Each production reads what the grammar spells, or fails where the grammar does.** -/
theorem reads (limits : Limits) :
    (∀ depth c, ReadsTree limits depth .operand (operand limits depth c)) ∧
    (∀ l depth c, ReadsTree limits depth l (level l limits depth c)) ∧
    (∀ l depth left c, ReadsChain limits depth l left (chain l limits depth left c)) ∧
    (∀ depth c, ReadsArguments limits depth .arguments Place.InCall (arguments limits depth c)) ∧
    ∀ depth c, ReadsArguments limits depth .someArguments (AwaitsArgument c.token)
      (someArguments limits depth c) := by
  refine productions_induction
    (fun depth c => ReadsTree limits depth .operand (operand limits depth c))
    (fun l depth c => ReadsTree limits depth l (level l limits depth c))
    (fun l depth left c => ReadsChain limits depth l left (chain l limits depth left c))
    (fun depth c => ReadsArguments limits depth .arguments Place.InCall (arguments limits depth c))
    (fun depth c => ReadsArguments limits depth .someArguments (AwaitsArgument c.token)
      (someArguments limits depth c))
    ?sign ?number ?name ?group ?finish ?other ?operand ?joined ?last ?operator ?noArguments
    ?arguments ?someArguments
  case sign =>
    intro depth c t h ht ih
    rcases ht with rfl | rfl
    · exact reads_plus h ih
    · exact reads_minus h ih
  case number => exact fun depth c value h => reads_number h
  case name => exact fun depth c name h ih => reads_name h ih
  case group => exact fun depth c h ih => reads_openParen h ih
  case finish => exact fun depth c h => reads_none h
  case other => exact fun depth c t h ht => reads_other h ht
  case operand =>
    intro depth c ih
    rwa [level_operand]
  case joined => exact fun l depth c h ih ihc => reads_level (level_joined h) ih ihc
  case last => exact fun l depth left c h => reads_chain_none h
  case operator => exact fun l depth left c o h ih ihc => reads_chain_some h ih ihc
  case noArguments => exact fun depth c h => reads_arguments_nil h
  case arguments => exact fun depth c h ih => reads_arguments_some h ih
  case someArguments => exact fun depth c ih ihs => reads_someArguments ih ihs

end Cursor

end Formula
