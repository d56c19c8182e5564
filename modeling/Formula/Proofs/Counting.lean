import Mathlib.Tactic.SplitIfs
import Formula.Reader
import Formula.Proofs.Equations

/-!
# The depth of a reader

A reader that counts its nesting does what the productions do that are told how deep they are.
Behind every production its depth is what it was before, and on the way it has been within the
limits.

* `Reader.Run.Counts`: the statement on a run of a reader.
* **`Reader.Run.Counts.nested`**: behind a nested part the depth is restored, whatever the part has
  come to. `Reader.Run.Counts.andThen`, `Reader.counts_past`: the other ways to build a run.
* **`Reader.counts`**: all productions have it.
-/

namespace Formula

namespace Reader

variable {r : Reader} {α β : Type}

/-! ## Runs -/

/-- The run comes to what the production makes of the cursor, and leaves the depth as it was. In
between it has set the depth to values within the limits. -/
structure Run.Counts (o : Run r α) (p : Reading r.cursor α) : Prop where
  outcome : o.1.1 = p.1.1
  cursor : o.1.2.cursor = p.1.2
  limits : o.1.2.limits = r.limits
  depth : o.1.2.depth = r.depth
  trail : ∃ values, o.1.2.trail = values ++ r.trail ∧ ∀ n ∈ values, n ≤ r.limits.depth

theorem counts_stay (r : Reader) (outcome : Except ParseError α) :
    (Run.stay r outcome).Counts (.stay r.cursor outcome) :=
  ⟨rfl, rfl, rfl, rfl, [], rfl, by simp⟩

theorem Run.Counts.andThen {o : Run r α} {p : Reading r.cursor α}
    {k : α → (s : Reader) → s.cursor.unread ≤ r.cursor.unread → Run s β}
    {k' : α → (d : Cursor) → d.unread ≤ r.cursor.unread → Reading d β} (h : o.Counts p)
    (hk : ∀ a (s : Reader) hs, s.limits = r.limits → s.depth = r.depth →
      (k a s hs).Counts (k' a s.cursor hs)) : (o.andThen k).Counts (p.andThen k') := by
  obtain ⟨⟨outcome, s⟩, hs⟩ := o
  obtain ⟨⟨_, _⟩, _⟩ := p
  obtain ⟨rfl, rfl, hlimits, hdepth, values, htrail, hvalues⟩ := h
  cases outcome with
  | error e => exact ⟨rfl, rfl, hlimits, hdepth, values, htrail, hvalues⟩
  | ok a =>
    obtain ⟨houtcome, hcursor, hlimits', hdepth', values', htrail', hvalues'⟩ :=
      hk a s hs hlimits hdepth
    refine ⟨houtcome, hcursor, hlimits'.trans hlimits, hdepth'.trans hdepth, values' ++ values,
      ?_, fun n hn => ?_⟩
    · rw [List.append_assoc]
      exact htrail'.trans (congrArg _ htrail)
    · rcases List.mem_append.1 hn with hn | hn
      · exact hlimits ▸ hvalues' n hn
      · exact hvalues n hn

theorem counts_past {ht : r.cursor.token.isSome}
    {k : (s : Reader) → s.cursor.unread < r.cursor.unread → Run s α}
    {k' : (d : Cursor) → d.unread < r.cursor.unread → Reading d α}
    (hk : ∀ d hd, (k { r with cursor := d } hd).Counts (k' d hd)) :
    (r.past ht k).Counts (r.cursor.past ht k') := by
  unfold past
  split
  next d hd =>
    have hpast : (r.cursor.past ht k').1 = (k' d _).1 := Cursor.past_of_ok hd
    obtain ⟨houtcome, hcursor, hlimits, hdepth, htrail⟩ := hk d _
    rw [← hpast] at houtcome hcursor
    exact ⟨houtcome, hcursor, hlimits, hdepth, htrail⟩
  next e d hd =>
    have hpast : (r.cursor.past ht k').1 = (.error (.lexical e), d) := Cursor.past_of_error hd
    refine ⟨?_, ?_, rfl, rfl, [], rfl, by simp⟩ <;> rw [hpast]

/-- **Behind a nested part the depth is what it was**, also where the part has failed. -/
theorem Run.Counts.nested {k : (s : Reader) → s.cursor.unread ≤ r.cursor.unread → Run s α}
    {k' : Nat → Reading r.cursor α}
    (hk : ∀ hr, (k (r.setDepth (r.depth + 1)) hr).Counts (k' (r.depth + 1))) :
    (r.nested k).Counts (r.cursor.nested r.limits r.depth k') := by
  unfold Reader.nested Cursor.nested
  split_ifs with hlim
  · exact counts_stay ..
  · obtain ⟨houtcome, hcursor, hlimits, hdepth, values, htrail, hvalues⟩ := hk (Nat.le_refl _)
    have hdepth' : (k (r.setDepth (r.depth + 1)) (Nat.le_refl _)).1.2.depth - 1 = r.depth := by
      rw [hdepth]
      rfl
    refine ⟨houtcome, hcursor, hlimits, hdepth', r.depth :: (values ++ [r.depth + 1]), ?_, ?_⟩
    · show _ :: _ = _
      rw [hdepth', htrail, List.cons_append, List.append_assoc]
      rfl
    · intro n hn
      rcases List.mem_cons.1 hn with rfl | hn
      · omega
      · rcases List.mem_append.1 hn with hn | hn
        · exact hvalues n hn
        · rw [List.mem_singleton.1 hn]
          omega

theorem counts_closing (r : Reader) : r.closing.Counts r.cursor.closing := by
  unfold closing Cursor.closing
  split_ifs
  · exact counts_past fun _ _ => counts_stay ..
  · exact counts_stay ..

theorem counts_accept {limits : Limits} (h : r.limits = limits) (e : Expr) (height : Nat) :
    (Run.stay r (r.accept e height)).Counts
      (.stay r.cursor (limits.accept r.cursor.position e height)) := by
  subst h
  exact counts_stay ..

/-! ## Productions -/

/-- The production that counts does at `c` what the one does that is told the depth. -/
def Follows (run : (r : Reader) → Run r α)
    (production : Limits → Nat → (c : Cursor) → Reading c α) (depth : Nat) (c : Cursor) : Prop :=
  ∀ r : Reader, r.cursor = c → r.depth = depth →
    (run r).Counts (production r.limits r.depth r.cursor)

theorem depth_nested {run : (r : Reader) → Run r α}
    {production : Limits → Nat → (c : Cursor) → Reading c α}
    (h : ∀ depth c, Follows run production depth c) (s : Reader) :
    (s.nested fun s _ => run s).1.2.depth = s.depth := by
  have hs : (s.nested fun s _ => run s).Counts
      (s.cursor.nested s.limits s.depth fun deeper => production s.limits deeper s.cursor) :=
    .nested fun _ => h _ _ (s.setDepth (s.depth + 1)) rfl rfl
  exact hs.depth

variable {depth : Nat} {c : Cursor}

theorem counts_sign {t : Token} (h : c.token = some t) (ht : t = .plus ∨ t = .minus)
    (ih : ∀ d : Cursor, d.unread < c.unread → ∀ deeper, Follows operand Cursor.operand deeper d) :
    Follows operand Cursor.operand depth c := by
  rintro ⟨⟨_, position, rest, finish⟩, limits, depth, trail⟩ rfl rfl
  cases h
  have hnested (s : Reader)
      (hs : s.cursor.unread < Cursor.unread ⟨some t, position, rest, finish⟩) :
      (s.nested fun r _ => r.operand).Counts
        (s.cursor.nested s.limits s.depth fun deeper => s.cursor.operand s.limits deeper) :=
    .nested fun _ => ih _ hs _ (s.setDepth (s.depth + 1)) rfl rfl
  rcases ht with rfl | rfl
  · rw [operand, Cursor.operand]
    exact counts_past fun d hd => hnested _ hd
  · rw [operand, Cursor.operand]
    refine counts_past fun d hd => (hnested _ hd).andThen fun inner s _ hlimits _ => ?_
    exact counts_accept hlimits _ _

theorem counts_number {value : Float} (h : c.token = some (.number value)) :
    Follows operand Cursor.operand depth c := by
  rintro ⟨⟨_, position, rest, finish⟩, limits, depth, trail⟩ rfl rfl
  cases h
  rw [operand, Cursor.operand]
  unfold accept Limits.accept
  split_ifs
  · exact counts_stay ..
  · exact counts_past fun _ _ => counts_stay ..

theorem counts_name {name : String} (h : c.token = some (.name name))
    (ih : ∀ d : Cursor, d.unread < c.unread → ∀ f : Cursor, f.unread < d.unread → ∀ deeper,
      Follows arguments Cursor.arguments deeper f) : Follows operand Cursor.operand depth c := by
  rintro ⟨⟨_, position, rest, finish⟩, limits, depth, trail⟩ rfl rfl
  cases h
  rw [operand, Cursor.operand]
  refine counts_past fun d hd => ?_
  split_ifs
  · refine counts_past fun f hf => ?_
    refine Run.Counts.andThen (.nested fun _ => ih d hd f hf _ _ rfl rfl) ?_
    exact fun _ s _ hlimits _ => counts_accept hlimits _ _
  · exact counts_accept rfl _ _

theorem counts_openParen (h : c.token = some .openParen)
    (ih : ∀ d : Cursor, d.unread < c.unread → ∀ deeper,
      Follows (level · .sum) (Cursor.level .sum) deeper d) :
    Follows operand Cursor.operand depth c := by
  rintro ⟨⟨_, position, rest, finish⟩, limits, depth, trail⟩ rfl rfl
  cases h
  rw [operand, Cursor.operand]
  refine counts_past fun d hd => ?_
  refine Run.Counts.andThen (.nested fun _ => ih d hd _ _ rfl rfl) fun inner s _ _ _ => ?_
  exact (counts_closing s).andThen fun _ s _ _ _ => counts_stay ..

theorem counts_none (h : c.token = none) : Follows operand Cursor.operand depth c := by
  rintro ⟨⟨_, position, rest, finish⟩, limits, depth, trail⟩ rfl rfl
  cases h
  rw [operand, Cursor.operand]
  exact counts_stay ..

theorem counts_other {t : Token} (h : c.token = some t)
    (ht : t = .star ∨ t = .slash ∨ t = .closeParen ∨ t = .comma) :
    Follows operand Cursor.operand depth c := by
  rintro ⟨⟨_, position, rest, finish⟩, limits, depth, trail⟩ rfl rfl
  cases h
  rcases ht with rfl | rfl | rfl | rfl <;> rw [operand, Cursor.operand] <;> exact counts_stay ..

theorem level_joined {l : Level} (h : l ≠ .operand) :
    r.level l = (r.level l.below).andThen fun first s _ => s.chain l first := by
  cases l with
  | operand => exact (h rfl).elim
  | product =>
    rw [level]
    rfl
  | sum =>
    rw [level]
    rfl

theorem counts_level {l : Level} (hl : l ≠ .operand)
    (ih : Follows (level · l.below) (Cursor.level l.below) depth c)
    (ihc : ∀ (first : Subtree) (d : Cursor), d.unread ≤ c.unread →
      Follows (chain · l first) (Cursor.chain l · · first) depth d) :
    Follows (level · l) (Cursor.level l) depth c := by
  rintro r rfl rfl
  show (r.level l).Counts (r.cursor.level l r.limits r.depth)
  rw [level_joined hl, Cursor.level_joined hl]
  refine (ih r rfl rfl).andThen fun first s hs hlimits hdepth => ?_
  rw [← hlimits, ← hdepth]
  exact ihc first s.cursor hs s rfl hdepth

theorem counts_chain_none {l : Level} {left : Subtree} (h : c.operator? l = none) :
    Follows (chain · l left) (Cursor.chain l · · left) depth c := by
  rintro r rfl rfl
  show (r.chain l left).Counts (r.cursor.chain l r.limits r.depth left)
  rw [Cursor.chain_none h, chain]
  split
  next => exact counts_stay ..
  next ho => cases h.symm.trans ho

theorem counts_chain_some {l : Level} {left : Subtree} {o : Operator} (h : c.operator? l = some o)
    (ih : ∀ d : Cursor, d.unread < c.unread →
      Follows (level · l.below) (Cursor.level l.below) depth d)
    (ihc : ∀ d : Cursor, d.unread < c.unread → ∀ f : Cursor, f.unread ≤ d.unread → ∀ left,
      Follows (chain · l left) (Cursor.chain l · · left) depth f) :
    Follows (chain · l left) (Cursor.chain l · · left) depth c := by
  rintro r rfl rfl
  show (r.chain l left).Counts (r.cursor.chain l r.limits r.depth left)
  rw [Cursor.chain_some h, chain]
  split
  next ho => cases h.symm.trans ho
  next o' ho =>
    cases h.symm.trans ho
    refine counts_past fun d hd => ?_
    refine (ih d hd { r with cursor := d } rfl rfl).andThen fun right s hs hlimits hdepth => ?_
    unfold accept Limits.accept
    rw [hlimits]
    split_ifs
    · exact counts_stay ..
    · have hchain := ihc d hd s.cursor hs
        ⟨.binary o left.expr right.expr, max left.height right.height + 1⟩ s rfl hdepth
      rw [hlimits, hdepth] at hchain
      exact hchain

theorem counts_arguments_nil (h : c.token = some .closeParen) :
    Follows arguments Cursor.arguments depth c := by
  rintro r rfl rfl
  rw [arguments, dif_pos h, Cursor.arguments, dif_pos h]
  exact counts_past fun _ _ => counts_stay ..

theorem counts_arguments_some (h : c.token ≠ some .closeParen)
    (ih : Follows someArguments Cursor.someArguments depth c) :
    Follows arguments Cursor.arguments depth c := by
  rintro r rfl rfl
  rw [arguments, dif_neg h, Cursor.arguments, dif_neg h]
  exact ih r rfl rfl

theorem counts_someArguments (ih : Follows (level · .sum) (Cursor.level .sum) depth c)
    (ihs : ∀ d : Cursor, d.unread ≤ c.unread → ∀ f : Cursor, f.unread < d.unread →
      Follows someArguments Cursor.someArguments depth f) :
    Follows someArguments Cursor.someArguments depth c := by
  rintro r rfl rfl
  rw [someArguments, Cursor.someArguments]
  refine (ih r rfl rfl).andThen fun first s hs hlimits hdepth => ?_
  rw [← hlimits, ← hdepth]
  split_ifs
  · refine Run.Counts.andThen (counts_past fun f hf => ihs s.cursor hs f hf _ rfl hdepth) ?_
    exact fun _ _ _ _ _ => counts_stay ..
  · exact (counts_closing s).andThen fun _ _ _ _ _ => counts_stay ..

/-- **A reader that counts does what the productions do that are told how deep they are.** -/
theorem counts :
    (∀ depth c, Follows operand Cursor.operand depth c) ∧
    (∀ l depth c, Follows (level · l) (Cursor.level l) depth c) ∧
    (∀ l depth left c, Follows (chain · l left) (Cursor.chain l · · left) depth c) ∧
    (∀ depth c, Follows arguments Cursor.arguments depth c) ∧
    ∀ depth c, Follows someArguments Cursor.someArguments depth c := by
  refine Cursor.productions_induction (Follows operand Cursor.operand)
    (fun l => Follows (level · l) (Cursor.level l))
    (fun l depth left => Follows (chain · l left) (Cursor.chain l · · left) depth)
    (Follows arguments Cursor.arguments) (Follows someArguments Cursor.someArguments)
    ?sign ?number ?name ?group ?finish ?other ?operand ?joined ?last ?operator ?noArguments
    ?arguments ?someArguments
  case sign => exact fun depth c t h ht ih => counts_sign h ht ih
  case number => exact fun depth c value h => counts_number h
  case name => exact fun depth c name h ih => counts_name h ih
  case group => exact fun depth c h ih => counts_openParen h ih
  case finish => exact fun depth c h => counts_none h
  case other => exact fun depth c t h ht => counts_other h ht
  case operand =>
    rintro depth c ih r rfl rfl
    show (r.level .operand).Counts (r.cursor.level .operand r.limits r.depth)
    rw [level, Cursor.level]
    exact ih r rfl rfl
  case joined => exact fun l depth c hl ih ihc => counts_level hl ih ihc
  case last => exact fun l depth left c h => counts_chain_none h
  case operator => exact fun l depth left c o h ih ihc => counts_chain_some h ih ihc
  case noArguments => exact fun depth c h => counts_arguments_nil h
  case arguments => exact fun depth c h ih => counts_arguments_some h ih
  case someArguments => exact fun depth c ih ihs => counts_someArguments ih ihs

end Reader

end Formula
