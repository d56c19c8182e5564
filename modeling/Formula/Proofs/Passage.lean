import Formula.Cursor

/-!
# What a cursor passes

* `Cursor.Passes`: the tokens between two standings of a cursor.
* `Cursor.Meets`: tokens and what stands behind them: a token, bad text or the end.
* `Cursor.Stands`: a cursor on the first of given items.
* **`Cursor.Stands.meets`**: what a cursor meets is what the items are.
* `tokenize_eq_ok_iff`, `tokenize_of_bad`: the tokens of a source by its items.
-/

namespace Formula

namespace Cursor

/-- The cursor moves over the tokens, one after the other. -/
inductive Passes : Cursor → List Token → Cursor → Prop
  | refl (c : Cursor) : Passes c [] c
  | step {c d e : Cursor} {t : Token} {ts : List Token} :
    c.token = some t → c.advance = (.ok (), d) → Passes d ts e → Passes c (t :: ts) e

/-- The cursor moves over the tokens, and what it meets next stands at a position; the end is met as
`none`. Bad text is met while the cursor stands on the last of the tokens. -/
inductive Meets (c : Cursor) : List Token → Option Piece → Nat → Prop
  | current {d : Cursor} {ts : List Token} :
    c.Passes ts d → Meets c ts (d.token.map .token) d.position
  | bad {d d' : Cursor} {ts : List Token} {t : Token} {e : LexicalError} :
    c.Passes ts d → d.token = some t → d.advance = (.error e, d') →
      Meets c (ts ++ [t]) (some (.bad e.text)) e.position

variable {c d e : Cursor} {t : Token} {ts us : List Token} {next : Option Piece} {position : Nat}

theorem Passes.single (ht : c.token = some t) (h : c.advance = (.ok (), d)) : c.Passes [t] d :=
  .step ht h (.refl d)

theorem Passes.trans (h : c.Passes ts d) (h' : d.Passes us e) : c.Passes (ts ++ us) e := by
  induction h with
  | refl => exact h'
  | step ht hd _ ih => exact .step ht hd (ih h')

theorem Passes.exists_of_cons (h : c.Passes (t :: ts) e) :
    ∃ d, c.token = some t ∧ c.advance = (.ok (), d) ∧ d.Passes ts e := by
  cases h with
  | step ht hd h => exact ⟨_, ht, hd, h⟩

theorem Passes.exists_of_append (h : c.Passes (ts ++ us) e) :
    ∃ d, c.Passes ts d ∧ d.Passes us e := by
  induction ts generalizing c with
  | nil => exact ⟨c, .refl c, h⟩
  | cons t ts ih =>
    obtain ⟨d, ht, hd, h⟩ := h.exists_of_cons
    obtain ⟨f, hf, h⟩ := ih h
    exact ⟨f, .step ht hd hf, h⟩

theorem Passes.head (h : c.Passes ts d) (hts : ts ≠ []) : c.token = ts.head? := by
  cases h with
  | refl => exact (hts rfl).elim
  | step ht _ _ => exact ht

theorem Passes.meets (h : c.Passes ts d) (h' : d.Meets us next position) :
    c.Meets (ts ++ us) next position := by
  cases h' with
  | current hd => exact .current (h.trans hd)
  | bad hd ht he =>
    rw [← List.append_assoc]
    exact .bad (h.trans hd) ht he

/-! ## Standing on items -/

/-- The cursor stands on the first of the items, which is a token, or at the end if there are
none. -/
def Stands (c : Cursor) : List Item → Prop
  | [] => c.token = none ∧ c.position = c.finish ∧ c.rest = []
  | ⟨piece, position⟩ :: rest =>
    c.token.map .token = some piece ∧ c.position = position ∧ c.rest = rest

variable {items : List Item}

theorem Stands.head (h : c.Stands items) :
    c.token.map .token = items.head?.map (·.piece) ∧
      c.position = (items.head?.map (·.position)).getD c.finish := by
  cases items with
  | nil => exact ⟨by rw [h.1]; rfl, h.2.1⟩
  | cons item rest => exact ⟨h.1, h.2.1⟩

theorem Stands.rest (h : c.Stands items) : c.rest = items.tail := by
  cases items with
  | nil => exact h.2.2
  | cons item rest => exact h.2.2

theorem Stands.unread (h : c.Stands items) : c.unread = items.length := by
  cases items with
  | nil => simp [Cursor.unread, h.1, h.2.2]
  | cons item rest =>
    obtain ⟨t, ht, -⟩ := Option.map_eq_some_iff.1 h.1
    simp [Cursor.unread, ht, h.2.2]

theorem Stands.exists_cons (h : c.Stands items) (ht : c.token = some t) :
    ∃ position rest, items = ⟨.token t, position⟩ :: rest ∧ c.rest = rest := by
  cases items with
  | nil => exact absurd (h.1.symm.trans ht) (by simp)
  | cons item rest =>
    obtain ⟨piece, position⟩ := item
    obtain ⟨hp, -, hr⟩ := h
    rw [ht] at hp
    cases hp
    exact ⟨position, rest, rfl, hr⟩

theorem stands_of_advance_ok (hd : c.advance = (.ok (), d)) :
    d.Stands c.rest ∧ d.finish = c.finish := by
  unfold advance at hd
  split at hd
  next hr =>
    cases hd
    rw [hr]
    exact ⟨⟨rfl, rfl, rfl⟩, rfl⟩
  next hr =>
    cases hd
    rw [hr]
    exact ⟨⟨rfl, rfl, rfl⟩, rfl⟩
  next => cases hd

theorem advance_of_stands (h : d.Stands c.rest) (hd : d.finish = c.finish) :
    c.advance = (.ok (), d) := by
  obtain ⟨token, position, rest, finish⟩ := d
  cases hd
  unfold advance
  generalize c.rest = items at h
  cases items with
  | nil =>
    obtain ⟨htoken, hposition, hrest⟩ := h
    cases htoken
    cases hposition
    cases hrest
    rfl
  | cons item items =>
    obtain ⟨piece, place⟩ := item
    obtain ⟨htoken, hposition, hrest⟩ := h
    obtain ⟨t, ht, rfl⟩ := Option.map_eq_some_iff.1 htoken
    cases ht
    cases hposition
    cases hrest
    rfl

theorem rest_of_advance_error {e : LexicalError} (hd : c.advance = (.error e, d)) :
    ∃ rest, c.rest = ⟨.bad e.text, e.position⟩ :: rest := by
  unfold advance at hd
  split at hd
  next => cases hd
  next => cases hd
  next text position rest hr =>
    cases hd
    exact ⟨rest, hr⟩

theorem exists_advance_ok (h : ∀ item ∈ c.rest.head?, ∃ t, item.piece = .token t) :
    ∃ d, c.advance = (.ok (), d) := by
  unfold advance
  split
  next => exact ⟨_, rfl⟩
  next => exact ⟨_, rfl⟩
  next hr =>
    obtain ⟨t, ht⟩ := h _ (by rw [hr]; rfl)
    cases ht

theorem Stands.passes (h : c.Stands items) (hd : c.Passes ts d) :
    ∃ before after, items = before ++ after ∧ before.map (·.piece) = ts.map .token ∧
      d.Stands after ∧ d.finish = c.finish := by
  induction hd generalizing items with
  | refl => exact ⟨[], items, rfl, rfl, h, rfl⟩
  | step ht hd _ ih =>
    obtain ⟨position, rest, rfl, rfl⟩ := h.exists_cons ht
    obtain ⟨hs, hf⟩ := stands_of_advance_ok hd
    obtain ⟨before, after, ha, hb, hs, hf'⟩ := ih hs
    refine ⟨_ :: before, after, by rw [ha]; rfl, ?_, hs, hf'.trans hf⟩
    rw [List.map_cons, List.map_cons, hb]

/-- **What a cursor meets is what the items are.** -/
theorem Stands.meets (h : c.Stands items) (hm : c.Meets ts next position) :
    ∃ before after, items = before ++ after ∧ before.map (·.piece) = ts.map .token ∧
      next = after.head?.map (·.piece) ∧
        position = (after.head?.map (·.position)).getD c.finish := by
  cases hm with
  | current hd =>
    obtain ⟨before, after, ha, hb, hs, hf⟩ := h.passes hd
    exact ⟨before, after, ha, hb, hs.head.1, hf ▸ hs.head.2⟩
  | @bad d _ ts t e hd ht he =>
    obtain ⟨before, after, rfl, hb, hs, -⟩ := h.passes hd
    obtain ⟨position, rest, rfl, hr⟩ := hs.exists_cons ht
    obtain ⟨rest', hr'⟩ := rest_of_advance_error he
    refine ⟨before ++ [⟨.token t, position⟩], rest, by simp, by simp [hb], ?_, ?_⟩
    · rw [← hr, hr']
      rfl
    · rw [← hr, hr']
      rfl

theorem Stands.exists_passes_to {before after : List Item} (h : c.Stands (before ++ after))
    (hts : before.map (·.piece) = ts.map .token)
    (hafter : ∀ item ∈ after.head?, ∃ t, item.piece = .token t) :
    ∃ d, c.Passes ts d ∧ d.Stands after := by
  induction ts generalizing c before with
  | nil =>
    cases List.map_eq_nil_iff.1 hts
    exact ⟨c, .refl c, h⟩
  | cons t ts ih =>
    obtain ⟨⟨_, position⟩, rest, rfl, rfl, hrest⟩ := List.map_eq_cons_iff.1 hts
    obtain ⟨ht, -, hahead⟩ := h
    have hhead : ∀ item ∈ c.rest.head?, ∃ t, item.piece = .token t := by
      rw [hahead]
      cases rest with
      | nil => exact hafter
      | cons item rest =>
        rintro _ ⟨⟩
        obtain ⟨u, us, -, hu, -⟩ := List.map_eq_cons_iff.1 hrest.symm
        exact ⟨u, hu.symm⟩
    obtain ⟨d, hd⟩ := exists_advance_ok hhead
    have hstands := (stands_of_advance_ok hd).1
    rw [hahead] at hstands
    obtain ⟨f, hf, hfafter⟩ := ih hstands hrest
    obtain ⟨u, hu, hut⟩ := Option.map_eq_some_iff.1 ht
    cases hut
    exact ⟨f, .step hu hd hf, hfafter⟩

theorem Stands.exists_passes (h : c.Stands items) (hts : items.map (·.piece) = ts.map .token) :
    ∃ d, c.Passes ts d ∧ d.token = none := by
  rw [← List.append_nil items] at h
  obtain ⟨d, hd, hend⟩ := h.exists_passes_to hts nofun
  exact ⟨d, hd, hend.1⟩

/-! ## Sources -/

theorem advance_of_ofSource {source : String} (h : ofSource source = .ok c) :
    (before source).advance = (.ok (), c) := by
  unfold ofSource at h
  split at h
  next outcome d hd =>
    cases outcome with
    | error => cases h
    | ok =>
      cases h
      exact hd

theorem ofSource_eq_ok {source : String} (h : ofSource source = .ok c) :
    c.Stands (Item.ofSource source) ∧ c.finish = source.utf8ByteSize :=
  stands_of_advance_ok (advance_of_ofSource h)

theorem ofSource_of_stands {source : String} (h : c.Stands (Item.ofSource source))
    (hc : c.finish = source.utf8ByteSize) : ofSource source = .ok c := by
  unfold ofSource
  rw [advance_of_stands (c := before source) h hc]
  rfl

theorem ofSource_eq_error {source : String} {e : LexicalError} (h : ofSource source = .error e) :
    ∃ rest, Item.ofSource source = ⟨.bad e.text, e.position⟩ :: rest := by
  unfold ofSource at h
  split at h
  next outcome d hd =>
    cases outcome with
    | ok => cases h
    | error =>
      cases h
      exact rest_of_advance_error hd

end Cursor

/-! ## Tokens and bad text -/

namespace Item

/-- Items are tokens up to a first bad text, if there is one. -/
theorem tokens_or_bad (items : List Item) :
    (∃ ts : List Token, items.map (·.piece) = ts.map .token) ∨
      ∃ (ts : List Token) (before after : List Item) (e : LexicalError),
        before.map (·.piece) = ts.map .token ∧
          items = before ++ ⟨.bad e.text, e.position⟩ :: after := by
  induction items with
  | nil => exact .inl ⟨[], rfl⟩
  | cons item items ih =>
    obtain ⟨t | text, position⟩ := item
    · rcases ih with ⟨ts, hts⟩ | ⟨ts, before, after, e, hts, rfl⟩
      · exact .inl ⟨t :: ts, by rw [List.map_cons, List.map_cons, hts]⟩
      · refine .inr ⟨t :: ts, ⟨.token t, position⟩ :: before, after, e, ?_, rfl⟩
        rw [List.map_cons, List.map_cons, hts]
    · exact .inr ⟨[], [], items, ⟨text, position⟩, rfl, rfl⟩

end Item

variable {source : String} {ts : List Token} {e : LexicalError} {before after : List Item}

theorem tokenize_of_tokens (h : (Item.ofSource source).map (·.piece) = ts.map .token) :
    tokenize source = .ok ts := by
  unfold tokenize
  generalize Item.ofSource source = items at h
  induction ts generalizing items with
  | nil =>
    rw [List.map_eq_nil_iff.1 h]
    rfl
  | cons t ts ih =>
    obtain ⟨⟨_, position⟩, rest, rfl, rfl, hr⟩ := List.map_eq_cons_iff.1 h
    rw [List.mapM_cons, ih _ hr]
    rfl

theorem tokenize_of_bad (hts : before.map (·.piece) = ts.map .token)
    (h : Item.ofSource source = before ++ ⟨.bad e.text, e.position⟩ :: after) :
    tokenize source = .error e := by
  unfold tokenize
  rw [h]
  clear h
  induction ts generalizing before with
  | nil =>
    rw [List.map_eq_nil_iff.1 hts, List.nil_append, List.mapM_cons]
    rfl
  | cons t ts ih =>
    obtain ⟨⟨_, position⟩, rest, rfl, rfl, hr⟩ := List.map_eq_cons_iff.1 hts
    rw [List.cons_append, List.mapM_cons, ih hr]
    rfl

theorem tokenize_eq_ok_iff :
    tokenize source = .ok ts ↔ (Item.ofSource source).map (·.piece) = ts.map .token := by
  refine ⟨fun h => ?_, tokenize_of_tokens⟩
  rcases Item.tokens_or_bad (Item.ofSource source) with ⟨us, hus⟩ | ⟨us, before, after, e, hus, he⟩
  · cases h.symm.trans (tokenize_of_tokens hus)
    exact hus
  · cases h.symm.trans (tokenize_of_bad hus he)

namespace Cursor

theorem ofSource_passes (h : tokenize source = .ok ts) :
    ∃ c d, ofSource source = .ok c ∧ c.Passes ts d ∧ d.token = none := by
  rw [tokenize_eq_ok_iff] at h
  cases hc : ofSource source with
  | error e =>
    obtain ⟨rest, hr⟩ := ofSource_eq_error hc
    rw [hr] at h
    obtain ⟨t, ts, -, ht, -⟩ := List.map_eq_cons_iff.1 h.symm
    cases ht
  | ok c =>
    obtain ⟨d, hd, hn⟩ := (ofSource_eq_ok hc).1.exists_passes h
    exact ⟨c, d, rfl, hd, hn⟩

theorem tokenize_of_passes {c d : Cursor} (hc : ofSource source = .ok c) (h : c.Passes ts d)
    (hd : d.token = none) : tokenize source = .ok ts := by
  obtain ⟨before, after, ha, hb, hs, -⟩ := (ofSource_eq_ok hc).1.passes h
  cases after with
  | nil => exact tokenize_of_tokens (by rw [ha, List.append_nil, hb])
  | cons item after => exact absurd (hd ▸ hs.1) (by simp)

end Cursor

end Formula
