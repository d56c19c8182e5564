import Mathlib
import Formula.Proofs.Attempts

/-!
# What the calls of `next?` yield

A call of `next?` takes the current token and then looks for the one behind it. If there is bad text
instead, then the call fails, and the token that it has taken is yielded by no call.

* `Cursor.Iterates`: what the calls yield one after the other.
* `Cursor.Passes.iterates`: tokens with no bad text behind them are yielded.
* `iterates_of_tokens`, `iterates_of_bad`: a source without bad text and one with it.
* **`iterates_results_iff`**: which sources lose a token, and which token it is.
* **`tokenize_eq_collect`**: the tokens of a source are what the calls yield, if none fails.
-/

namespace Formula

/-- The tokens of the items up to the first bad text, and behind them that as an error. -/
def Item.results : List Item → List (Except LexicalError Token)
  | [] => []
  | ⟨.token token, _⟩ :: items => .ok token :: results items
  | ⟨.bad text, position⟩ :: _ => [.error ⟨text, position⟩]

namespace Cursor

/-- What the call of `next?` of number `n` yields, counted from zero. -/
def yield? (c : Cursor) : Nat → Option (Except LexicalError Token)
  | 0 => c.next?.1
  | n + 1 => c.next?.2.yield? n

/-- The calls of `next?` yield these results one after the other, and then nothing any more. -/
def Iterates (c : Cursor) (results : List (Except LexicalError Token)) : Prop :=
  ∀ n, c.yield? n = results[n]?

variable {c d : Cursor} {t : Token} {ts : List Token} {e : LexicalError}
  {result : Except LexicalError Token} {results others : List (Except LexicalError Token)}

theorem Iterates.unique (h : c.Iterates results) (h' : c.Iterates others) : results = others :=
  List.ext_getElem? fun n => (h n).symm.trans (h' n)

/-! ## One call -/

theorem iterates_nil (h : c.token = none) : c.Iterates [] := by
  intro n
  induction n with
  | zero => rw [yield?, next?_eq_none h, List.getElem?_nil]
  | succ n ih => rwa [yield?, next?_eq_none h]

theorem Iterates.cons (h : c.next? = (some result, d)) (hd : d.Iterates results) :
    c.Iterates (result :: results) := by
  intro n
  cases n with
  | zero => rw [yield?, h, List.getElem?_cons_zero]
  | succ n => rw [yield?, h, List.getElem?_cons_succ, hd n]

theorem next?_of_ok (ht : c.token = some t) (hd : c.advance = (.ok (), d)) :
    c.next? = (some (.ok t), d) := by
  have hadvance : advance { c with token := none } = (.ok (), d) := by
    obtain ⟨hstands, hfinish⟩ := stands_of_advance_ok hd
    exact advance_of_stands hstands hfinish
  rw [next?, ht, take, hadvance]
  rfl

/-- Bad text behind a token is yielded in place of it, and the cursor is without a token. -/
theorem next?_of_error (ht : c.token = some t) (hd : c.advance = (.error e, d)) :
    c.next? = (some (.error e), { d with token := none }) := by
  obtain ⟨rest, hrest⟩ := rest_of_advance_error hd
  obtain ⟨token, position, _, finish⟩ := c
  cases hrest
  cases hd
  cases ht
  rfl

/-! ## Runs of calls -/

theorem Passes.iterates (h : c.Passes ts d) (hd : d.Iterates results) :
    c.Iterates (ts.map .ok ++ results) := by
  induction h with
  | refl => exact hd
  | step ht hf _ ih => exact (ih hd).cons (next?_of_ok ht hf)

theorem iterates_remaining (c : Cursor) : c.Iterates c.remaining.1 := by
  fun_induction remaining c with
  | case1 c h others last hothers ih =>
    rw [hothers] at ih
    refine Iterates.cons ?_ ih
    obtain ⟨t, ht⟩ := Option.isSome_iff_exists.1 h
    simp [next?, ht]
  | case2 c h => exact iterates_nil (by simpa using h)

end Cursor

/-! ## Items -/

namespace Item

variable {items before after : List Item} {ts : List Token} {e : LexicalError}

theorem results_of_tokens (h : items.map (·.piece) = ts.map .token) :
    results items = ts.map .ok := by
  induction ts generalizing items with
  | nil =>
    cases List.map_eq_nil_iff.1 h
    rfl
  | cons t ts ih =>
    obtain ⟨⟨_, position⟩, rest, rfl, rfl, hrest⟩ := List.map_eq_cons_iff.1 h
    rw [results, ih hrest, List.map_cons]

theorem results_of_bad (h : before.map (·.piece) = ts.map .token) :
    results (before ++ ⟨.bad e.text, e.position⟩ :: after) = ts.map .ok ++ [.error e] := by
  induction ts generalizing before with
  | nil =>
    cases List.map_eq_nil_iff.1 h
    rfl
  | cons t ts ih =>
    obtain ⟨⟨_, position⟩, rest, rfl, rfl, hrest⟩ := List.map_eq_cons_iff.1 h
    rw [List.cons_append, results, ih hrest, List.map_cons, List.cons_append]

end Item

namespace Cursor

variable {c d : Cursor} {t : Token} {ts : List Token} {e : LexicalError} {items : List Item}

theorem advance_of_bad {rest : List Item} (h : c.rest = ⟨.bad e.text, e.position⟩ :: rest) :
    c.advance = (.error e, { c with rest }) := by
  rw [advance, h]

theorem Stands.exists_bad {before after : List Item}
    (h : c.Stands (before ++ ⟨.bad e.text, e.position⟩ :: after))
    (hts : before.map (·.piece) = (ts ++ [t]).map .token) :
    ∃ d d', c.Passes ts d ∧ d.token = some t ∧ d.advance = (.error e, d') := by
  rw [List.map_append] at hts
  obtain ⟨front, last, rfl, hfront, hlast⟩ := List.map_eq_append_iff.1 hts
  obtain ⟨⟨_, position⟩, _, rfl, rfl, hnil⟩ := List.map_eq_cons_iff.1 hlast
  cases List.map_eq_nil_iff.1 hnil
  rw [List.append_assoc] at h
  obtain ⟨d, hd, ht, -, hrest⟩ := h.exists_passes_to hfront (by simp)
  obtain ⟨u, hu, hut⟩ := Option.map_eq_some_iff.1 ht
  cases hut
  exact ⟨d, _, hd, hu, advance_of_bad hrest⟩

end Cursor

/-! ## Sources -/

section Sources

variable {source : String} {c : Cursor} {ts : List Token} {e : LexicalError}

theorem iterates_of_tokens (hc : Cursor.ofSource source = .ok c) (h : tokenize source = .ok ts) :
    Item.results (Item.ofSource source) = ts.map .ok ∧ c.Iterates (ts.map .ok) := by
  obtain ⟨_, d, hc', hd, hnone⟩ := Cursor.ofSource_passes h
  cases hc.symm.trans hc'
  have hyields := hd.iterates (Cursor.iterates_nil hnone)
  rw [List.append_nil] at hyields
  exact ⟨Item.results_of_tokens (tokenize_eq_ok_iff.1 h), hyields⟩

/-- With bad text the token in front of it is not yielded. -/
theorem iterates_of_bad (hc : Cursor.ofSource source = .ok c) (h : tokenize source = .error e) :
    ∃ (ts : List Token) (t : Token),
      Item.results (Item.ofSource source) = ts.map .ok ++ [.ok t, .error e] ∧
        c.Iterates (ts.map .ok ++ [.error e]) := by
  have hstands := (Cursor.ofSource_eq_ok hc).1
  rcases Item.tokens_or_bad (Item.ofSource source) with ⟨us, hus⟩ | ⟨us, before, after, f, hus, hf⟩
  · cases h.symm.trans (tokenize_of_tokens hus)
  · obtain rfl : f = e := Except.error.inj ((tokenize_of_bad hus hf).symm.trans h)
    rw [hf] at hstands ⊢
    rcases List.eq_nil_or_concat' us with rfl | ⟨ts, t, rfl⟩
    · cases List.map_eq_nil_iff.1 hus
      exact absurd hstands.1 (by simp)
    · obtain ⟨d, d', hd, ht, he⟩ := hstands.exists_bad hus
      have hlast := Cursor.Iterates.cons (Cursor.next?_of_error ht he) (Cursor.iterates_nil rfl)
      refine ⟨ts, t, ?_, hd.iterates hlast⟩
      rw [Item.results_of_bad hus]
      simp

end Sources

/-- **A token is lost where there is bad text.** The calls of `next?` on the cursor of a source
yield all tokens in front of the first bad text, and then that, exactly if there is none. If there
is, then they yield all those tokens but the last one, and then the bad text. They yield nothing
more. -/
theorem iterates_results_iff {source : String} {c : Cursor} (hc : Cursor.ofSource source = .ok c) :
    (c.Iterates (Item.results (Item.ofSource source)) ↔ ∃ ts, tokenize source = .ok ts) ∧
      ∀ e, tokenize source = .error e → ∃ (ts : List Token) (t : Token),
        Item.results (Item.ofSource source) = ts.map .ok ++ [.ok t, .error e] ∧
          c.Iterates (ts.map .ok ++ [.error e]) := by
  refine ⟨⟨fun h => ?_, ?_⟩, fun e => iterates_of_bad hc⟩
  · cases hs : tokenize source with
    | ok ts => exact ⟨ts, rfl⟩
    | error e =>
      obtain ⟨ts, t, hresults, hyields⟩ := iterates_of_bad hc hs
      rw [hresults] at h
      have hlength := congrArg List.length (h.unique hyields)
      simp at hlength
  · rintro ⟨ts, hts⟩
    obtain ⟨hresults, hyields⟩ := iterates_of_tokens hc hts
    rwa [hresults]

/-- The second of two names is not yielded, as bad text stands behind it. -/
theorem iterates_results_iff_two_names :
    let c : Cursor := ⟨some (.name "a"), 0, [⟨.token (.name "b"), 2⟩, ⟨.bad "@", 3⟩], 4⟩
    Cursor.ofSource "a b@" = .ok c ∧ c.Iterates [.ok (.name "a"), .error ⟨"@", 3⟩] := by
  intro c
  have hc : Cursor.ofSource "a b@" = .ok c := by cbv
  have hbad : tokenize "a b@" = .error ⟨"@", 3⟩ := by cbv
  have hresults : Item.results (Item.ofSource "a b@") =
      [.ok (.name "a")] ++ [.ok (.name "b"), .error ⟨"@", 3⟩] := by cbv
  obtain ⟨ts, t, hts, hyields⟩ := (iterates_results_iff hc).2 _ hbad
  rw [hresults] at hts
  obtain ⟨hfront, -⟩ := List.append_inj' hts rfl
  rw [← hfront] at hyields
  exact ⟨hc, hyields⟩

/-- In front of bad text the only token is not yielded. -/
theorem iterates_results_fails :
    ∃ c, Cursor.ofSource "a@" = .ok c ∧
      Item.results (Item.ofSource "a@") = [.ok (.name "a"), .error ⟨"@", 1⟩] ∧
        ¬ c.Iterates (Item.results (Item.ofSource "a@")) := by
  have hresults : Item.results (Item.ofSource "a@") =
      [.ok (.name "a"), .error ⟨"@", 1⟩] := by cbv
  refine ⟨⟨some (.name "a"), 0, [⟨.bad "@", 1⟩], 2⟩, by cbv, hresults, fun h => ?_⟩
  have hfirst := h 0
  rw [hresults] at hfirst
  cases hfirst

/-! ## Collecting -/

theorem mapM_map_ok (ts : List Token) :
    (ts.map (.ok : Token → Except LexicalError Token)).mapM id = .ok ts := by
  induction ts with
  | nil => rfl
  | cons t ts ih =>
    rw [List.map_cons, List.mapM_cons, ih]
    rfl

theorem mapM_map_ok_error (ts : List Token) (e : LexicalError) :
    (ts.map Except.ok ++ [Except.error e]).mapM id = .error e := by
  induction ts with
  | nil => rfl
  | cons t ts ih =>
    rw [List.map_cons, List.cons_append, List.mapM_cons, ih]
    rfl

/-- **The tokens of a source are collected from the calls of `next?`**, up to the first failure. -/
theorem tokenize_eq_collect (source : String) : tokenize source =
    match Cursor.ofSource source with
    | .ok c => c.remaining.1.mapM id
    | .error e => .error e := by
  cases hc : Cursor.ofSource source with
  | error e =>
    obtain ⟨rest, hrest⟩ := Cursor.ofSource_eq_error hc
    have hfront : ([] : List Item).map (·.piece) = ([] : List Token).map .token := rfl
    exact tokenize_of_bad hfront hrest
  | ok c =>
    show _ = c.remaining.1.mapM id
    have hyields := c.iterates_remaining
    cases hs : tokenize source with
    | ok ts => rw [hyields.unique (iterates_of_tokens hc hs).2, mapM_map_ok]
    | error e =>
      obtain ⟨ts, t, -, hlost⟩ := iterates_of_bad hc hs
      rw [hyields.unique hlost, mapM_map_ok_error]

end Formula
