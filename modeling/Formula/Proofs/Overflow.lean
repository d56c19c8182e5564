import Mathlib
import Formula.Proofs.FirstViolation
import Formula.Proofs.Heights
import Formula.Proofs.Stack
import Formula.Proofs.WiderLimits

/-!
# When nesting is too deep

* `Item.Leads`: tokens in front of some items of a source.
* `climbs_of_parse`, `stuck_of_error`: how the stack moves while a source is read.
* `not_isLimit`: limits that no source of its length reaches.
* `viable_of_limit`: what is read when a limit is met goes on to some formula.
* `not_stuck`, `error_of_overflows`: reading fails where the stack overflows, and not before.
* **`nestingTooDeep_iff`**: nesting is too deep where the stack overflows.
-/

namespace Formula

/-! ## Tokens in front of items -/

namespace Item

/-- The items are the tokens `ts`, without bad text among them, and `after`. -/
def Leads (ts : List Token) (items after : List Item) : Prop :=
  ∃ before : List Item, items = before ++ after ∧ before.map (·.piece) = ts.map .token

variable {ts us : List Token} {items after after' : List Item} {t : Token}

theorem leads_nil : Leads [] items after ↔ items = after := by
  constructor
  · rintro ⟨before, rfl, hbefore⟩
    rw [List.map_eq_nil_iff.1 hbefore]
    rfl
  · rintro rfl
    exact ⟨[], rfl, rfl⟩

theorem Leads.exists_cons (h : Leads (t :: ts) items after) :
    ∃ position rest, items = ⟨.token t, position⟩ :: rest ∧ Leads ts rest after := by
  obtain ⟨before, rfl, hbefore⟩ := h
  obtain ⟨⟨_, position⟩, rest, rfl, rfl, hrest⟩ := List.map_eq_cons_iff.1 hbefore
  exact ⟨position, rest ++ after, rfl, rest, rfl, hrest⟩

theorem Leads.length_le (h : Leads ts items after) : ts.length ≤ items.length := by
  obtain ⟨before, rfl, hbefore⟩ := h
  have hlength := congrArg List.length hbefore
  simp only [List.length_map] at hlength
  rw [List.length_append]
  omega

/-- Of two runs of tokens in front of items one is the beginning of the other. -/
theorem Leads.compare (h : Leads ts items after) (h' : Leads us items after') :
    (∃ v vs, us = ts ++ v :: vs ∧ Leads (v :: vs) after after') ∨ (us = ts ∧ after' = after) ∨
      ∃ v vs, ts = us ++ v :: vs ∧ Leads (v :: vs) after' after := by
  induction ts generalizing items us with
  | nil =>
    obtain rfl := leads_nil.1 h
    cases us with
    | nil => exact .inr (.inl ⟨rfl, (leads_nil.1 h').symm⟩)
    | cons u us => exact .inl ⟨u, us, rfl, h'⟩
  | cons t ts ih =>
    cases us with
    | nil =>
      obtain rfl := leads_nil.1 h'
      exact .inr (.inr ⟨t, ts, rfl, h⟩)
    | cons u us =>
      obtain ⟨position, rest, rfl, hts⟩ := h.exists_cons
      obtain ⟨_, _, hitems, hus⟩ := h'.exists_cons
      cases hitems
      rcases ih hts hus with ⟨v, vs, rfl, hvs⟩ | ⟨rfl, rfl⟩ | ⟨v, vs, rfl, hvs⟩
      · exact .inl ⟨v, vs, rfl, hvs⟩
      · exact .inr (.inl ⟨rfl, rfl⟩)
      · exact .inr (.inr ⟨v, vs, rfl, hvs⟩)

theorem Leads.head? (h : Leads (t :: ts) items after) :
    items.head?.map (·.piece) = some (.token t) := by
  obtain ⟨position, rest, rfl, -⟩ := h.exists_cons
  rfl

theorem Leads.positionOf_lt {source : String} (h : Leads us (ofSource source) after)
    (h' : Leads (t :: ts) after after') :
    positionOf after source.utf8ByteSize < positionOf after' source.utf8ByteSize := by
  obtain ⟨before, hbefore, -⟩ := h
  obtain ⟨hrise, hin⟩ := positions_ofSource source
  rw [hbefore] at hrise hin
  obtain ⟨position, rest, rfl, between, rfl, -⟩ := h'.exists_cons
  have hrest : ((⟨.token t, position⟩ :: between) ++ after').Pairwise (·.position < ·.position) :=
    (List.pairwise_append.1 hrise).2.1
  exact lt_positionOf hrest (fun item hitem => hin item (List.mem_append_right _ hitem)) _ (.head _)

/-- A run of tokens at the start of a source is known by where it ends. -/
theorem Leads.eq_of_positionOf {source : String} (h : Leads ts (ofSource source) after)
    (h' : Leads us (ofSource source) after')
    (hposition : positionOf after source.utf8ByteSize = positionOf after' source.utf8ByteSize) :
    us = ts ∧ after' = after := by
  rcases h.compare h' with ⟨v, vs, -, hvs⟩ | heq | ⟨v, vs, -, hvs⟩
  · exact absurd hposition (Nat.ne_of_lt (h.positionOf_lt hvs))
  · exact heq
  · exact absurd hposition.symm (Nat.ne_of_lt (h'.positionOf_lt hvs))

end Item

namespace Cursor

variable {c d : Cursor} {ts : List Token} {items : List Item}

theorem Stands.leads (h : c.Stands items) (hd : c.Passes ts d) :
    ∃ after, Item.Leads ts items after ∧ d.Stands after ∧ d.finish = c.finish := by
  obtain ⟨before, after, ha, hb, hs, hf⟩ := h.passes hd
  exact ⟨after, ⟨before, ha, hb⟩, hs, hf⟩

end Cursor

/-! ## The stack of a source -/

section Sources

variable {source : String} {limits : Limits} {c : Cursor} {e : Expr} {err : ParseError}

theorem ascends_sum (limits : Limits) (c : Cursor) :
    Ascends limits.depth (c.level .sum limits 0) {} ⟨[], false⟩ :=
  (Cursor.ascends limits).2.1 .sum 0 c [] rfl (Nat.zero_le _) rfl

theorem climbs_of_parse (hc : Cursor.ofSource source = .ok c) (h : parse source limits = .ok e) :
    ∃ ts, Item.Leads ts (Item.ofSource source) [] ∧ Stack.Stays limits.depth {} ts ∧
      (Stack.run {} ts none).height ≤ limits.depth := by
  have hx := Cursor.expression_of_yields (ascends_sum limits c)
  rw [parse_eq_expression hc] at h
  rw [h] at hx
  obtain ⟨tree, d, ⟨hclimbs, hheight⟩, -, hd⟩ := hx
  obtain ⟨ts, hts, hrun, hstays⟩ := hclimbs.exists_passes
  obtain ⟨after, hleads, hstands, -⟩ := (Cursor.ofSource_eq_ok hc).1.leads hts
  obtain rfl : after = [] := by
    cases after with
    | nil => rfl
    | cons item after => exact absurd (hd ▸ hstands.1) (by simp)
  rw [hrun, hd] at hheight
  exact ⟨ts, hleads, hstays, hheight⟩

theorem stuck_of_error (hc : Cursor.ofSource source = .ok c)
    (h : parse source limits = .error err) :
    ∃ (ts : List Token) (d : Cursor) (after : List Item),
      Item.Leads ts (Item.ofSource source) after ∧ d.Stands after ∧
        d.position = Item.positionOf after source.utf8ByteSize ∧ Stack.Stays limits.depth {} ts ∧
        Stuck limits.depth (Stack.run {} ts d.token) d err := by
  have hx := Cursor.expression_of_yields (ascends_sum limits c)
  rw [parse_eq_expression hc] at h
  rw [h] at hx
  have hstuck : ∃ s d, Cursor.Climbs limits.depth {} c s d ∧ Stuck limits.depth s d err := by
    rcases hx with hstuck | ⟨tree, d, t, ⟨hclimbs, hheight⟩, -, rfl⟩
    · exact hstuck
    · exact ⟨_, d, hclimbs, .here hheight rfl nofun⟩
  obtain ⟨s, d, hclimbs, hstuck⟩ := hstuck
  obtain ⟨ts, hts, rfl, hstays⟩ := hclimbs.exists_passes
  obtain ⟨hstart, hfinish⟩ := Cursor.ofSource_eq_ok hc
  obtain ⟨after, hleads, hstands, hfinish'⟩ := hstart.leads hts
  refine ⟨ts, d, after, hleads, hstands, ?_, hstays, hstuck⟩
  rw [← hfinish, ← hfinish']
  exact hstands.head.2

/-- A tree is not too high for a limit that is as great as the source is long. -/
theorem ne_tooLarge (hc : Cursor.ofSource source = .ok c) (h : parse source limits = .error err)
    (hheight : source.utf8ByteSize ≤ limits.height) (limit position : Nat) :
    err ≠ .tooLarge limit position := by
  rintro rfl
  have hx := Cursor.expression_of_yields ((Cursor.measures limits).2.1 .sum 0 c)
  rw [parse_eq_expression hc] at h
  rw [h] at hx
  rcases hx with hexceeds | ⟨_, _, _, -, -, herr⟩
  · have hlt := hexceeds _ _ rfl
    have hlength := Item.length_ofSource_le source
    rw [(Cursor.ofSource_eq_ok hc).1.unread] at hlt
    omega
  · cases herr

theorem isLimit_eq_false (h : ∀ limit position, err ≠ .nestingTooDeep limit position)
    (h' : ∀ limit position, err ≠ .tooLarge limit position) : err.isLimit = false := by
  cases err with
  | nestingTooDeep limit position => exact (h limit position rfl).elim
  | tooLarge limit position => exact (h' limit position rfl).elim
  | _ => rfl

theorem not_isLimit (hc : Cursor.ofSource source = .ok c) (h : parse source limits = .error err)
    (hdepth : source.utf8ByteSize ≤ limits.depth) (hheight : source.utf8ByteSize ≤ limits.height) :
    err.isLimit = false := by
  obtain ⟨ts, d, after, hleads, -, -, -, hstuck⟩ := stuck_of_error hc h
  cases hstuck with
  | high hlt =>
    have hrun := Stack.height_run_le {} ts d.token
    have hts := hleads.length_le
    have hlength := Item.length_ofSource_le source
    simp only [Stack.height, List.length_nil] at hrun hlt
    omega
  | bad => rfl
  | here _ _ hne => exact isLimit_eq_false hne (ne_tooLarge hc h hheight)

theorem viable_of_append {ts us : List Token} (h : Viable (ts ++ us)) : Viable ts := by
  obtain ⟨vs, hvs⟩ := h
  exact ⟨us ++ vs, by rwa [← List.append_assoc]⟩

/-- What is read when a limit is met goes on to some formula: without the limit reading goes on. -/
theorem viable_of_limit {ts : List Token} {after : List Item}
    (hc : Cursor.ofSource source = .ok c) (h : parse source limits = .error err)
    (hl : err.isLimit) (hleads : Item.Leads ts (Item.ofSource source) after)
    (hposition : err.position = Item.positionOf after source.utf8ByteSize) : Viable ts := by
  let wide : Limits := ⟨limits.depth + source.utf8ByteSize, limits.height + source.utf8ByteSize⟩
  have hdepth : limits.depth ≤ wide.depth := Nat.le_add_right ..
  have hheight : limits.height ≤ wide.height := Nat.le_add_right ..
  have hsim := (widening hdepth hheight).whole ⟨rfl, Cursor.rising_of_ofSource hc⟩
  have hwhole : ∀ limits, parse source limits = (c.whole limits).1.1 := by
    intro limits
    rw [parse_eq_expression hc, Cursor.expression_eq_whole]
  cases hwide : parse source wide with
  | ok e =>
    obtain ⟨us, n, hus, hspelled, -⟩ := spelled_of_parse hwide
    have hall : Item.Leads us (Item.ofSource source) [] :=
      ⟨_, (List.append_nil _).symm, tokenize_eq_ok_iff.1 hus⟩
    have hviable : Viable us := ⟨[], by rw [List.append_nil]; exact ⟨e, n, hspelled⟩⟩
    rcases hleads.compare hall with ⟨v, vs, rfl, -⟩ | ⟨rfl, -⟩ | ⟨v, vs, -, hvs⟩
    · exact viable_of_append hviable
    · exact hviable
    · cases hvs.head?
  | error err' =>
    have hreaches := (hsim.limit err ((hwhole limits).symm.trans h) hl).2.le_position
      ((hwhole wide).symm.trans hwide)
    have hl' := not_isLimit hc hwide (Nat.le_add_left ..) (Nat.le_add_left ..)
    obtain ⟨us, before, after', hitems, hbefore, hviable, p, -, -, rfl⟩ := stops_of_error hwide hl'
    rw [Place.fault, position_fault, hposition] at hreaches
    have hleads' : Item.Leads us (Item.ofSource source) after' := ⟨before, hitems, hbefore⟩
    rcases hleads.compare hleads' with ⟨v, vs, rfl, -⟩ | ⟨rfl, -⟩ | ⟨v, vs, -, hvs⟩
    · exact viable_of_append hviable
    · exact hviable
    · exact absurd hreaches (Nat.not_le_of_lt (hleads'.positionOf_lt hvs))

theorem eq_of_map_token {next next' : Option Token}
    (h : next.map Piece.token = next'.map .token) : next = next' :=
  Option.map_injective (fun _ _ => Piece.token.inj) h

/-- Reading does not get stuck in front of tokens that go on to some formula, while the stack is
within the limit. -/
theorem not_stuck {us vs : List Token} {v : Token} {d : Cursor} {after after' : List Item}
    {next : Option Token} (hc : Cursor.ofSource source = .ok c)
    (h : parse source limits = .error err) (hheight : source.utf8ByteSize ≤ limits.height)
    (hus : Item.Leads us (Item.ofSource source) after') (hvs : Item.Leads (v :: vs) after' after)
    (hnext : after.head?.map (·.piece) = next.map .token) (hviable : Viable (us ++ v :: vs))
    (hstands : d.Stands after')
    (hposition : d.position = Item.positionOf after' source.utf8ByteSize)
    (hlow : (Stack.run {} us (some v)).height ≤ limits.depth) :
    ¬ Stuck limits.depth (Stack.run {} us d.token) d err := by
  have htoken : d.token = some v := eq_of_map_token (hstands.head.1.trans hvs.head?)
  rw [htoken]
  intro hstuck
  cases hstuck with
  | high hlt => exact absurd hlow (Nat.not_le_of_lt hlt)
  | bad _ _ hd =>
    -- the bad text would stand among the tokens or right behind them
    obtain ⟨_, hbad⟩ := Cursor.rest_of_advance_error hd
    obtain ⟨position, rest, rfl, hrest⟩ := hvs.exists_cons
    have hd : rest = _ := hstands.2.2.symm.trans hbad
    cases vs with
    | nil =>
      rw [← Item.leads_nil.1 hrest, hd] at hnext
      cases next <;> cases hnext
    | cons w ws =>
      have hhead := hrest.head?
      rw [hd] at hhead
      cases hhead
  | here _ herr hne =>
    have hl := isLimit_eq_false hne (ne_tooLarge hc h hheight)
    obtain ⟨ts, before, after'', hitems, hbefore, -, p, hp, hrefuses, rfl⟩ := stops_of_error h hl
    have hts : Item.Leads ts (Item.ofSource source) after'' := ⟨before, hitems, hbefore⟩
    rw [Place.fault, position_fault, hposition] at herr
    obtain ⟨rfl, rfl⟩ := hts.eq_of_positionOf hus herr
    rw [hvs.head?] at hrefuses
    rw [List.append_cons] at hviable
    exact Place.not_viable_of_step hp hrefuses (viable_of_append hviable)

theorem error_of_overflows {ts : List Token} {after : List Item} {next : Option Token}
    (hc : Cursor.ofSource source = .ok c) (hheight : source.utf8ByteSize ≤ limits.height)
    (hleads : Item.Leads ts (Item.ofSource source) after)
    (hnext : after.head?.map (·.piece) = next.map .token) (hviable : Viable ts)
    (hover : Stack.Overflows limits.depth ts next) :
    parse source limits =
      .error (.nestingTooDeep limits.depth (Item.positionOf after source.utf8ByteSize)) := by
  obtain ⟨hhigh, hbefore⟩ := hover
  -- nothing that stays within the limit goes on behind the tokens
  have hlast : ∀ v vs after', Item.Leads (v :: vs) after after' →
      ¬ Stack.Stays limits.depth {} (ts ++ v :: vs) := by
    intro v vs after' hvs hstays
    obtain rfl : next = some v := eq_of_map_token (hnext.symm.trans hvs.head?)
    exact absurd (hstays ts v vs rfl) (Nat.not_le_of_lt hhigh)
  cases h : parse source limits with
  | ok e =>
    obtain ⟨us, hleads', hstays, hlow⟩ := climbs_of_parse hc h
    rcases hleads.compare hleads' with ⟨v, vs, rfl, hvs⟩ | ⟨rfl, rfl⟩ | ⟨v, vs, -, hvs⟩
    · exact (hlast v vs [] hvs hstays).elim
    · obtain rfl : next = none := eq_of_map_token hnext.symm
      exact absurd hlow (Nat.not_le_of_lt hhigh)
    · cases hvs.head?
  | error err =>
    obtain ⟨us, d, after', hleads', hstands, hposition, hstays, hstuck⟩ := stuck_of_error hc h
    rcases hleads.compare hleads' with ⟨v, vs, rfl, hvs⟩ | ⟨rfl, rfl⟩ | ⟨v, vs, rfl, hvs⟩
    · exact (hlast v vs after' hvs hstays).elim
    · obtain rfl : d.token = next := eq_of_map_token (hstands.head.1.trans hnext)
      cases hstuck with
      | high => rw [hposition]
      | bad hlow => exact absurd hlow (Nat.not_le_of_lt hhigh)
      | here hlow => exact absurd hlow (Nat.not_le_of_lt hhigh)
    · have hlow := hbefore us v vs rfl
      exact (not_stuck hc h hheight hleads' hvs hnext hviable hstands hposition hlow hstuck).elim

end Sources

/-- **Nesting is too deep where the stack overflows.** The height limit is out of reach. Then the
nesting of a source is too deep if and only if there are tokens at its start, without bad text among
them, which go on to some formula, the last of which makes the stack higher than the limit as the
first one to do so, and behind which there is a token or the end. The error stands there. -/
theorem nestingTooDeep_iff {source : String} {limits : Limits}
    (h : source.utf8ByteSize ≤ limits.height) (limit position : Nat) :
    parse source limits = .error (.nestingTooDeep limit position) ↔
      limit = limits.depth ∧ ∃ ts after next, Item.Leads ts (Item.ofSource source) after ∧
        after.head?.map (·.piece) = next.map .token ∧ Viable ts ∧
          Stack.Overflows limits.depth ts next ∧
            position = Item.positionOf after source.utf8ByteSize := by
  constructor
  · intro herr
    cases hc : Cursor.ofSource source with
    | error e => cases (parse_eq_error hc limits).symm.trans herr
    | ok c =>
      obtain ⟨ts, d, after, hleads, hstands, hposition, hstays, hstuck⟩ := stuck_of_error hc herr
      cases hstuck with
      | high hhigh =>
        have hviable := viable_of_limit hc herr rfl hleads hposition
        exact ⟨rfl, ts, after, d.token, hleads, hstands.head.1.symm, hviable, ⟨hhigh, hstays⟩,
          hposition⟩
      | here _ _ hne => exact (hne limit position rfl).elim
  · rintro ⟨rfl, ts, after, next, hleads, hnext, hviable, hover, rfl⟩
    cases hc : Cursor.ofSource source with
    | error e =>
      obtain ⟨rest, hrest⟩ := Cursor.ofSource_eq_error hc
      cases ts with
      | nil => exact absurd hover.1 (Nat.not_lt_zero _)
      | cons t ts =>
        have hhead := hleads.head?
        rw [hrest] at hhead
        cases hhead
    | ok c => exact error_of_overflows hc h hleads hnext hviable hover

/-- The prefix inside the call is complete in front of the comma. The second one and the group
behind it are still open where the third parenthesis is one too many. -/
theorem nestingTooDeep_iff_in_call :
    parse "f(-a, -((b" ⟨3, 2 ^ 64 - 1⟩ = .error (.nestingTooDeep 3 9) ∧
      ∃ ts after next, Item.Leads ts (Item.ofSource "f(-a, -((b") after ∧
        after.head?.map (·.piece) = next.map .token ∧ Viable ts ∧ Stack.Overflows 3 ts next ∧
          9 = Item.positionOf after 10 := by
  have h : parse "f(-a, -((b" ⟨3, 2 ^ 64 - 1⟩ = .error (.nestingTooDeep 3 9) := by cbv
  have hheight : "f(-a, -((b".utf8ByteSize ≤ (⟨3, 2 ^ 64 - 1⟩ : Limits).height := by decide
  exact ⟨h, ((nestingTooDeep_iff hheight 3 9).1 h).2⟩

end Formula
