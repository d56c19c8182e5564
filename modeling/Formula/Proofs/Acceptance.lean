import Formula.Proofs.Completeness
import Formula.Proofs.Productions

/-!
# What is accepted

* `parse_of_spelled`: a source whose tokens spell a sum is read as it, or is beyond the limits.
* `spelled_of_parse`: what is read is spelled by the tokens of the source.
* `Phrase.Spelled.unique`: tokens spell one tree, with one nesting.
* **`parse_eq_ok_iff`**: the accepted sources.
-/

namespace Formula

variable {source : String} {limits : Limits} {e f : Expr} {ts : List Token} {m n : Nat}

namespace Reading

variable {c : Cursor} {α : Type} {r : Reading c α} {P P' : α → Cursor → Prop}
  {Q Q' : ParseError → Prop}

theorem Yields.and (h : r.Yields P Q) (h' : r.Yields P' Q') :
    r.Yields (fun a d => P a d ∧ P' a d) fun e => Q e ∧ Q' e := by
  obtain ⟨⟨a | e, d⟩, hd⟩ := r
  · exact ⟨h, h'⟩
  · exact ⟨h, h'⟩

theorem Yields.exists_of_not (h : r.Yields P Q) (hQ : ∀ e, ¬ Q e) : ∃ a d, P a d := by
  obtain ⟨⟨e | a, d⟩, hd⟩ := r
  · exact (hQ e h).elim
  · exact ⟨a, d, h⟩

end Reading

/-! ## Trees are unique -/

theorem level_of_spelled {l : Level} {c d : Cursor} (h : (Phrase.tree l e).Spelled ts n)
    (hc : c.Passes ts d) (hd : d.token = none) (limits : Limits) :
    (c.level l limits 0).Yields (fun t f => t.expr = e ∧ f = d ∧ limits.Admits n e.height)
      fun err => err.isLimit ∧ ¬ limits.Admits n e.height := by
  have hh : Halts l ts d.token := by
    rw [hd]
    exact .of_none l ts
  have hn : 0 + n = n := Nat.zero_add n
  refine (Cursor.completes_of_spelled limits h).yields (Nat.zero_le _) hc hh (fun ha => ?_) ?_
  · exact ⟨rfl, rfl, hn ▸ ha⟩
  · rw [hn]
    exact fun ha err herr => ⟨herr, ha⟩

theorem Cursor.exists_passes (ts : List Token) :
    ∃ c d : Cursor, c.Passes ts d ∧ d.token = none := by
  have hstands : Cursor.Stands ⟨ts.head?, 0, ts.tail.map fun t => ⟨.token t, 0⟩, 0⟩
      (ts.map fun t => ⟨.token t, 0⟩) := by
    cases ts with
    | nil => exact ⟨rfl, rfl, rfl⟩
    | cons t ts => exact ⟨rfl, rfl, rfl⟩
  have hpieces : (ts.map fun t => Item.mk (.token t) 0).map (·.piece) = ts.map .token := by
    rw [List.map_map]
    rfl
  obtain ⟨d, hd, hn⟩ := hstands.exists_passes hpieces
  exact ⟨_, d, hd, hn⟩

/-- Two trees are compared where the limits are as the first one needs them. -/
theorem Phrase.Spelled.eq_and_le {l : Level} (h : (Phrase.tree l e).Spelled ts m)
    (h' : (Phrase.tree l f).Spelled ts n) : e = f ∧ n ≤ m := by
  obtain ⟨c, d, hc, hd⟩ := Cursor.exists_passes ts
  let limits : Limits := ⟨m, max e.height f.height⟩
  have ha : limits.Admits m e.height := ⟨Nat.le_refl _, Nat.le_max_left ..⟩
  obtain ⟨t, -, ⟨he, -⟩, hf, -, hn⟩ :=
    ((level_of_spelled h hc hd limits).and (level_of_spelled h' hc hd limits)).exists_of_not
      fun err herr => herr.1.2 ha
  exact ⟨he.symm.trans hf, hn.1⟩

theorem Phrase.Spelled.unique {l : Level} (h : (Phrase.tree l e).Spelled ts m)
    (h' : (Phrase.tree l f).Spelled ts n) : e = f ∧ m = n :=
  ⟨(h.eq_and_le h').1, Nat.le_antisymm (h'.eq_and_le h).2 (h.eq_and_le h').2⟩

/-! ## Sources -/

theorem Cursor.expression_of_yields {c : Cursor} {P : Subtree → Cursor → Prop}
    {Q : ParseError → Prop} (h : (c.level .sum limits 0).Yields P Q) :
    match (c.expression limits).1 with
    | .ok e => ∃ t d, P t d ∧ t.expr = e ∧ d.token = none
    | .error err => Q err ∨ ∃ t d u, P t d ∧ d.token = some u ∧
        err = .trailingTokens (Token.describe u) d.position := by
  unfold expression
  generalize c.level .sum limits 0 = r at h
  obtain ⟨⟨err | t, d⟩, hd⟩ := r
  · exact .inl h
  · cases ht : d.token with
    | none => simpa only [ht] using ⟨t, d, h, rfl, ht⟩
    | some u => simpa only [ht] using .inr ⟨t, d, u, h, ht, rfl⟩

/-- A source whose tokens spell a sum is read as it, or is beyond the limits. -/
theorem parse_of_spelled (hts : tokenize source = .ok ts) (h : (Phrase.tree .sum e).Spelled ts n)
    (limits : Limits) :
    (limits.Admits n e.height ∧ parse source limits = .ok e) ∨
      (¬ limits.Admits n e.height ∧
        ∃ err : ParseError, err.isLimit ∧ parse source limits = .error err) := by
  obtain ⟨c, d, hc, hp, hd⟩ := Cursor.ofSource_passes hts
  have hx := Cursor.expression_of_yields (level_of_spelled h hp hd limits)
  rw [parse_eq_expression hc]
  cases hr : (c.expression limits).1 with
  | ok f =>
    rw [hr] at hx
    obtain ⟨t, d', ⟨ht, -, ha⟩, hf, -⟩ := hx
    exact .inl ⟨ha, by rw [← hf, ht]⟩
  | error err =>
    rw [hr] at hx
    rcases hx with ⟨herr, ha⟩ | ⟨t, d', u, ⟨-, rfl, -⟩, hu, -⟩
    · exact .inr ⟨ha, err, herr, rfl⟩
    · cases hd.symm.trans hu

theorem parse_of_admits (hts : tokenize source = .ok ts) (h : (Phrase.tree .sum e).Spelled ts n)
    (ha : limits.Admits n e.height) : parse source limits = .ok e := by
  rcases parse_of_spelled hts h limits with ⟨-, hok⟩ | ⟨hna, -⟩
  · exact hok
  · exact (hna ha).elim

/-- What is read is spelled by the tokens of the source, and within the limits. -/
theorem spelled_of_parse (h : parse source limits = .ok e) :
    ∃ ts n, tokenize source = .ok ts ∧ (Phrase.tree .sum e).Spelled ts n ∧
      limits.Admits n e.height := by
  cases hc : Cursor.ofSource source with
  | error err =>
    rw [parse, hc] at h
    cases h
  | ok c =>
    rw [parse_eq_expression hc] at h
    have hx := Cursor.expression_of_yields ((Cursor.reads limits).2.1 .sum 0 c (Nat.zero_le _))
    rw [h] at hx
    obtain ⟨t, d, ⟨ts, hts, hb, -⟩, rfl, hd⟩ := hx
    obtain ⟨n, hn, hle⟩ := hb.spelled
    refine ⟨ts, n, Cursor.tokenize_of_passes hc hts hd, hn, ?_, ?_⟩
    · rwa [Nat.zero_add] at hle
    · rw [← hb.height]
      exact hb.height_le

/-- **The accepted sources.** A source is read as a tree if and only if its tokens spell the tree
within the limits, and tokens spell at most one tree. -/
theorem parse_eq_ok_iff :
    (∀ (source : String) (limits : Limits) (e : Expr), parse source limits = .ok e ↔
      ∃ ts n, tokenize source = .ok ts ∧ (Phrase.tree .sum e).Spelled ts n ∧
        n ≤ limits.depth ∧ e.height ≤ limits.height) ∧
    ∀ ts, Subsingleton { p : Expr × Nat // (Phrase.tree .sum p.1).Spelled ts p.2 } := by
  refine ⟨fun source limits e => ⟨spelled_of_parse, ?_⟩, fun ts => ⟨?_⟩⟩
  · rintro ⟨ts, n, hts, hn, ha⟩
    exact parse_of_admits hts hn ha
  · rintro ⟨⟨e, m⟩, h⟩ ⟨⟨f, n⟩, h'⟩
    obtain ⟨rfl, rfl⟩ := h.unique h'
    rfl

end Formula
