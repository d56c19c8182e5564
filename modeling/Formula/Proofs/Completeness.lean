import Formula.Proofs.Halts

/-!
# What is spelled is read

The tokens of a phrase are read whole and as what they spell, unless the phrase is beyond the
limits; then the reading fails, and with an error about the limits.

* `Limits.Admits`: the limits on nesting and height.
* `Completes`: the statement on a phrase. That on a tree leaves open which operators of its level
  follow, since a tree that leans to the left is read from its innermost operand on.
* **`completes_of_spelled`**: all phrases have it.
-/

namespace Formula

/-- Nesting and height are within the limits. -/
def Limits.Admits (limits : Limits) (nesting height : Nat) : Prop :=
  nesting ≤ limits.depth ∧ height ≤ limits.height

/-- Beyond the limits every error about them is allowed. -/
def Limits.Guards (limits : Limits) (nesting height : Nat) (Q : ParseError → Prop) : Prop :=
  ¬ limits.Admits nesting height → ∀ e : ParseError, e.isLimit → Q e

namespace Limits

variable {limits : Limits} {m n g h : Nat} {Q : ParseError → Prop}

theorem Admits.of_le (hn : limits.Admits n h) (hm : m ≤ n) (hg : g ≤ h) : limits.Admits m g :=
  ⟨Nat.le_trans hm hn.1, Nat.le_trans hg hn.2⟩

theorem Guards.of_le (hq : limits.Guards n h Q) (hm : m ≤ n) (hg : g ≤ h) : limits.Guards m g Q :=
  fun hn => hq fun ha => hn (ha.of_le hm hg)

theorem Guards.nestingTooDeep (hq : limits.Guards n h Q) (hn : limits.depth < n) (position : Nat) :
    Q (.nestingTooDeep limits.depth position) :=
  hq (fun ha => absurd ha.1 (Nat.not_le_of_lt hn)) _ rfl

theorem Guards.tooLarge (hq : limits.Guards n h Q) (hh : limits.height < h) (position : Nat) :
    Q (.tooLarge limits.height position) :=
  hq (fun ha => absurd ha.2 (Nat.not_le_of_lt hh)) _ rfl

end Limits

namespace Cursor

variable (limits : Limits)

/-- How a phrase is read. Behind a tree the chain of its level goes on. -/
def Completes : Phrase → List Token → Nat → Prop
  | .tree l e, ts, n => ∀ (depth : Nat) (c d : Cursor) (P : Subtree → Cursor → Prop)
      (Q : ParseError → Prop), depth ≤ limits.depth → c.Passes ts d → Halts l.below ts d.token →
      (limits.Admits (depth + n) e.height →
        (chain l limits depth ⟨e, e.height⟩ d).Yields P Q) →
      limits.Guards (depth + n) e.height Q → (level l limits depth c).Yields P Q
  | .arguments es, ts, n => ∀ (depth : Nat) (c d : Cursor) (P : List Expr × Nat → Cursor → Prop)
      (Q : ParseError → Prop), depth ≤ limits.depth → c.Passes (ts ++ [.closeParen]) d →
      (limits.Admits (depth + n) (Expr.heights es) → P (es, Expr.heights es) d) →
      limits.Guards (depth + n) (Expr.heights es) Q → (arguments limits depth c).Yields P Q
  | .someArguments es, ts, n => ∀ (depth : Nat) (c d : Cursor)
      (P : List Expr × Nat → Cursor → Prop) (Q : ParseError → Prop), depth ≤ limits.depth →
      c.Passes (ts ++ [.closeParen]) d →
      (limits.Admits (depth + n) (Expr.heights es) → P (es, Expr.heights es) d) →
      limits.Guards (depth + n) (Expr.heights es) Q → (someArguments limits depth c).Yields P Q

variable {limits : Limits} {depth n : Nat} {l : Level} {e : Expr} {ts : List Token} {c d : Cursor}
  {P : Subtree → Cursor → Prop} {Q : ParseError → Prop}

/-- A tree that nothing goes on with is read whole. -/
theorem Completes.yields (h : Completes limits (.tree l e) ts n) (hdepth : depth ≤ limits.depth)
    (hd : c.Passes ts d) (hh : Halts l ts d.token)
    (hk : limits.Admits (depth + n) e.height → P ⟨e, e.height⟩ d)
    (hq : limits.Guards (depth + n) e.height Q) : (level l limits depth c).Yields P Q := by
  refine h depth c d P Q hdepth hd hh.below (fun ha => ?_) hq
  rw [chain_none hh.operator?_eq_none]
  exact hk ha

theorem completes_operand
    (h : ∀ (depth : Nat) (c d : Cursor) (P : Subtree → Cursor → Prop) (Q : ParseError → Prop),
      depth ≤ limits.depth → c.Passes ts d → Halts .operand ts d.token →
      (limits.Admits (depth + n) e.height → P ⟨e, e.height⟩ d) →
      limits.Guards (depth + n) e.height Q → (operand limits depth c).Yields P Q) :
    Completes limits (.tree .operand e) ts n := by
  intro depth c d P Q hdepth hd (hh : Halts .operand ts d.token) hk hq
  rw [level_operand]
  refine h depth c d P Q hdepth hd hh (fun ha => ?_) hq
  have hk := hk ha
  rwa [chain_none hh.operator?_eq_none] at hk

theorem yields_closing (h : c.token = some .closeParen) (hd : c.advance = (.ok (), d)) :
    c.closing.Yields (fun u e => u = () ∧ e = d ∧ True) Q := by
  rw [closing, dif_pos h]
  exact .past_of hd fun _ => ⟨rfl, rfl, trivial⟩

/-! ## Operands -/

theorem completes_number (value : Float) :
    Completes limits (.tree .operand (.number value)) [.number value] 0 := by
  refine completes_operand fun depth c d P Q hdepth hd hh hk hq => ?_
  obtain ⟨_, ht, hadvance, hd⟩ := hd.exists_of_cons
  cases hd
  rw [operand_number ht]
  split_ifs with hheight
  · exact hq.tooLarge hheight _
  · exact .past_of hadvance fun _ => hk ⟨hdepth, Nat.le_of_not_lt hheight⟩

theorem completes_var (name : String) :
    Completes limits (.tree .operand (.var name)) [.name name] 0 := by
  refine completes_operand fun depth c d P Q hdepth hd hh hk hq => ?_
  obtain ⟨_, ht, hadvance, hd⟩ := hd.exists_of_cons
  cases hd
  have hopen : d.token ≠ some .openParen := fun ho => hh.call ho rfl
  rw [operand_name ht]
  refine .past_of hadvance fun _ => ?_
  rw [dif_neg hopen]
  exact Reading.yields_accept (fun hle => hk ⟨hdepth, hle⟩) fun hlt => hq.tooLarge hlt _

theorem Completes.nested {us : List Token} (h : Completes limits (.tree l e) us n)
    (hdepth : depth ≤ limits.depth) (hd : c.Passes us d) (hh : Halts l us d.token)
    (hk : limits.Admits (depth + (n + 1)) e.height → P ⟨e, e.height⟩ d)
    (hq : limits.Guards (depth + (n + 1)) e.height Q) :
    (c.nested limits depth fun deeper => level l limits deeper c).Yields P Q := by
  have hdeeper : depth + (n + 1) = depth + 1 + n := by omega
  refine .nested (fun hlt => ?_) fun hle => hq.nestingTooDeep (by omega) _
  rw [hdeeper] at hk hq
  exact h.yields hlt hd hh hk hq

theorem completes_plus (h : Completes limits (.tree .operand e) ts n) (hts : ts ≠ []) :
    Completes limits (.tree .operand e) (.plus :: ts) (n + 1) := by
  refine completes_operand fun depth c d P Q hdepth hd hh hk hq => ?_
  obtain ⟨f, ht, hadvance, hf⟩ := hd.exists_of_cons
  have hh : Halts .operand ([.plus] ++ ts) d.token := hh
  rw [operand_plus ht]
  refine .past_of hadvance fun _ => ?_
  simpa only [level] using h.nested hdepth hf ((Halts.append_iff hts _).1 hh) hk hq

theorem completes_minus (h : Completes limits (.tree .operand e) ts n) (hts : ts ≠ []) :
    Completes limits (.tree .operand (.neg e)) (.minus :: ts) (n + 1) := by
  refine completes_operand fun depth c d P Q hdepth hd hh hk hq => ?_
  obtain ⟨f, ht, hadvance, hf⟩ := hd.exists_of_cons
  have hh : Halts .operand ([.minus] ++ ts) d.token := hh
  have hheight : e.height ≤ (Expr.neg e).height := Nat.le_succ _
  rw [operand_minus ht]
  have hnested := h.nested (P := fun t g => t = ⟨e, e.height⟩ ∧ g = d ∧
    depth + (n + 1) ≤ limits.depth) hdepth hf ((Halts.append_iff hts _).1 hh)
    (fun ha => ⟨rfl, rfl, ha.1⟩) (hq.of_le (Nat.le_refl _) hheight)
  simp only [level] at hnested
  refine .past_of hadvance fun _ => hnested.andThen_of fun hn _ => ?_
  exact Reading.yields_accept (fun hle => hk ⟨hn, hle⟩) fun hlt => hq.tooLarge hlt _

theorem completes_group (h : Completes limits (.tree .sum e) ts n) :
    Completes limits (.tree .operand e) (.openParen :: (ts ++ [.closeParen])) (n + 1) := by
  refine completes_operand fun depth c d P Q hdepth hd hh hk hq => ?_
  obtain ⟨f, ht, hadvance, hf⟩ := hd.exists_of_cons
  obtain ⟨g, hg, hd⟩ := hf.exists_of_append
  obtain ⟨_, hclose, hadvance', hd⟩ := hd.exists_of_cons
  cases hd
  rw [operand_openParen ht]
  have hh : Halts .sum ts g.token := by
    rw [hclose]
    exact .of_token .sum ts (.inl rfl)
  refine .past_of hadvance fun _ =>
    (h.nested hdepth hg hh (fun ha => ⟨rfl, rfl, ha⟩) hq).andThen_of fun ha _ => ?_
  exact (yields_closing hclose hadvance').andThen_of fun _ _ => hk ha

theorem completes_call {es : List Expr} (name : String)
    (h : Completes limits (.arguments es) ts n) :
    Completes limits (.tree .operand (.call name es))
      (.name name :: .openParen :: (ts ++ [.closeParen])) (n + 1) := by
  refine completes_operand fun depth c d P Q hdepth hd hh hk hq => ?_
  obtain ⟨f, ht, hadvance, hf⟩ := hd.exists_of_cons
  obtain ⟨g, hopen, hadvance', hg⟩ := hf.exists_of_cons
  have hdeeper : depth + (n + 1) = depth + 1 + n := by omega
  have hheight : Expr.heights es ≤ (Expr.call name es).height := Nat.le_succ _
  rw [hdeeper] at hk hq
  rw [operand_name ht]
  refine .past_of hadvance fun _ => ?_
  rw [dif_pos hopen]
  have hnested : (g.nested limits depth fun deeper => arguments limits deeper g).Yields
      (fun r d' => r = (es, Expr.heights es) ∧ d' = d ∧ depth + 1 + n ≤ limits.depth) Q := by
    refine .nested (fun hlt => ?_) fun hle => hq.nestingTooDeep (by omega) _
    exact h (depth + 1) g d _ Q hlt hg (fun ha => ⟨rfl, rfl, ha.1⟩)
      (hq.of_le (Nat.le_refl _) hheight)
  refine .past_of hadvance' fun _ => hnested.andThen_of fun hn _ => ?_
  exact Reading.yields_accept (fun hle => hk ⟨hn, hle⟩) fun hlt => hq.tooLarge hlt _

/-! ## Levels -/

theorem completes_level (hl : l ≠ .operand)
    (h : Completes limits (.tree l.below e) ts n) : Completes limits (.tree l e) ts n := by
  intro depth c d P Q hdepth hd hh hk hq
  rw [level_joined hl]
  exact (h.yields hdepth hd hh (fun ha => ⟨rfl, rfl, ha⟩) hq).andThen_of fun ha _ => hk ha

theorem completes_binary {o : Operator} {f : Expr} {us : List Token} {m : Nat}
    (h : Completes limits (.tree o.level e) ts m)
    (h' : Completes limits (.tree o.level.below f) us n) (hus : us ≠ []) :
    Completes limits (.tree o.level (.binary o e f)) (ts ++ o.token :: us) (max m n) := by
  intro depth c d P Q hdepth hd hh hk hq
  obtain ⟨g, hg, hd⟩ := hd.exists_of_append
  obtain ⟨i, ht, hadvance, hi⟩ := hd.exists_of_cons
  have hleft : e.height ≤ (Expr.binary o e f).height :=
    Nat.le_succ_of_le (Nat.le_max_left ..)
  have hright : f.height ≤ (Expr.binary o e f).height :=
    Nat.le_succ_of_le (Nat.le_max_right ..)
  have hbefore : Halts o.level.below ts g.token := by
    rw [ht]
    exact .of_operator o ts
  have hbehind : Halts o.level.below us d.token := by
    rw [List.append_cons] at hh
    exact (Halts.append_iff hus _).1 hh
  -- the left operand is read as far as the operator, where its chain goes on
  refine h depth c g P Q hdepth hg hbefore (fun ha => ?_)
    (hq.of_le (Nat.add_le_add_left (Nat.le_max_left ..) _) hleft)
  rw [chain_some (operator?_eq_some_iff.2 ⟨ht, rfl⟩)]
  refine .past_of hadvance fun _ =>
    (h'.yields hdepth hi hbehind (fun ha => ⟨rfl, rfl, ha⟩)
      (hq.of_le (Nat.add_le_add_left (Nat.le_max_right ..) _) hright)).andThen_of fun ha' _ => ?_
  have hmax : depth + max m n ≤ limits.depth := by
    have h1 := ha.1
    have h2 := ha'.1
    omega
  refine .andThen_of (Reading.yields_accept (fun hle => ⟨rfl, rfl, hle⟩)
    fun hlt => hq.tooLarge hlt _) fun hle _ => ?_
  exact hk ⟨hmax, hle⟩

/-! ## Arguments -/

theorem completes_none : Completes limits (.arguments []) [] 0 := by
  intro depth c d P Q hdepth hd hk hq
  obtain ⟨_, ht, hadvance, hd⟩ := hd.exists_of_cons
  cases hd
  rw [arguments, dif_pos ht]
  exact .past_of hadvance fun _ => hk ⟨hdepth, Nat.zero_le _⟩

theorem completes_some {es : List Expr} (h : Completes limits (.someArguments es) ts n)
    (hts : ts.head? ≠ some .closeParen) (hne : ts ≠ []) :
    Completes limits (.arguments es) ts n := by
  intro depth c d P Q hdepth hd hk hq
  have hclose : c.token ≠ some .closeParen := by
    cases ts with
    | nil => exact (hne rfl).elim
    | cons t ts => rwa [hd.head (List.cons_ne_nil t _)]
  rw [arguments, dif_neg hclose]
  exact h depth c d P Q hdepth hd hk hq

theorem completes_last (h : Completes limits (.tree .sum e) ts n) :
    Completes limits (.someArguments [e]) ts n := by
  intro depth c d P Q hdepth hd hk hq
  obtain ⟨g, hg, hd⟩ := hd.exists_of_append
  obtain ⟨_, hclose, hadvance, hd⟩ := hd.exists_of_cons
  cases hd
  have hheights : Expr.heights [e] = e.height := Nat.max_zero _
  rw [hheights] at hk hq
  rw [someArguments]
  have hh : Halts .sum ts g.token := by
    rw [hclose]
    exact .of_token .sum ts (.inl rfl)
  refine (h.yields hdepth hg hh (fun ha => ⟨rfl, rfl, ha⟩) hq).andThen_of fun ha _ => ?_
  rw [dif_neg (by simp [hclose])]
  exact (yields_closing hclose hadvance).andThen_of fun _ _ => hk ha

theorem completes_more {es : List Expr} {us : List Token} {m : Nat}
    (h : Completes limits (.tree .sum e) ts m) (h' : Completes limits (.someArguments es) us n) :
    Completes limits (.someArguments (e :: es)) (ts ++ .comma :: us) (max m n) := by
  intro depth c d P Q hdepth hd hk hq
  rw [List.append_assoc, List.cons_append] at hd
  obtain ⟨g, hg, hd⟩ := hd.exists_of_append
  obtain ⟨i, ht, hadvance, hi⟩ := hd.exists_of_cons
  rw [someArguments]
  have hh : Halts .sum ts g.token := by
    rw [ht]
    exact .of_token .sum ts (.inr rfl)
  have hleft : limits.Guards (depth + m) e.height Q :=
    hq.of_le (Nat.add_le_add_left (Nat.le_max_left ..) _) (Nat.le_max_left ..)
  have hright : limits.Guards (depth + n) (Expr.heights es) Q :=
    hq.of_le (Nat.add_le_add_left (Nat.le_max_right ..) _) (Nat.le_max_right ..)
  refine (h.yields hdepth hg hh (fun ha => ⟨rfl, rfl, ha⟩) hleft).andThen_of fun ha _ => ?_
  rw [dif_pos ht]
  refine .andThen_of (.past_of hadvance fun _ =>
    h' depth i d _ Q hdepth hi (fun ha => ⟨rfl, rfl, ha⟩) hright) fun ha' _ => ?_
  refine hk ⟨?_, Nat.max_le.2 ⟨ha.2, ha'.2⟩⟩
  have h1 := ha.1
  have h2 := ha'.1
  omega

theorem head?_ne_closeParen {es : List Expr} (h : (Phrase.someArguments es).Spelled ts n) :
    ts ≠ [] ∧ ts.head? ≠ some .closeParen := by
  obtain ⟨t, ht, -, hs⟩ := Place.scans_of_spelled h ⟨[.call], some .comma⟩ rfl rfl
  cases ts with
  | nil => cases ht
  | cons t ts =>
    refine ⟨List.cons_ne_nil t ts, ?_⟩
    rintro ⟨⟩
    cases hs

/-- **What is spelled is read whole, or is beyond the limits.** -/
theorem completes_of_spelled (limits : Limits) {ph : Phrase} (h : ph.Spelled ts n) :
    Completes limits ph ts n := by
  induction h with
  | number value => exact completes_number value
  | var name => exact completes_var name
  | plus h ih => exact completes_plus ih (Place.ne_nil_of_spelled h)
  | minus h ih => exact completes_minus ih (Place.ne_nil_of_spelled h)
  | group _ ih => exact completes_group ih
  | call name _ ih => exact completes_call name ih
  | product _ ih => exact completes_level (by decide) ih
  | sum _ ih => exact completes_level (by decide) ih
  | binary o _ h ih ih' => exact completes_binary ih ih' (Place.ne_nil_of_spelled h)
  | none => exact completes_none
  | some h ih => exact completes_some ih (head?_ne_closeParen h).2 (head?_ne_closeParen h).1
  | last _ ih => exact completes_last ih
  | more _ _ ih ih' => exact completes_more ih ih'

end Cursor

end Formula
