import Formula.Proofs.Passage
import Formula.Proofs.Positions
import Formula.Proofs.Spelling

/-!
# How a text is cut

* `Cuts`: a part of a text is blanks and lexemes, each of which ends where it is cut.
* **`cuts_iff`**: a text is cut in one way, into its items.
* **`tokenize_iff_cuts`**: the tokens of a source, or its first bad text, by how it is cut.
-/

namespace Formula

/-- The text `cs`, which stands at byte `position` in front of `rest`, is blanks and lexemes, each
of which ends where it is cut. -/
inductive Cuts : Nat → List Char → List Item → List Char → Prop
  | nil (position : Nat) (rest : List Char) : Cuts position [] [] rest
  | blank {position : Nat} {c : Char} {cs : List Char} {items : List Item} {rest : List Char} :
    isBlank c → Cuts (position + c.utf8Size) cs items rest → Cuts position (c :: cs) items rest
  | lexeme {position : Nat} {l : Lexeme} {cs : List Char} {items : List Item} {rest : List Char} :
    l.EndsBefore (cs ++ rest) → Cuts (position + byteLength l.spelling) cs items rest →
      Cuts position (l.spelling ++ cs) (⟨l.piece, position⟩ :: items) rest

variable {position : Nat} {cs rest : List Char} {items before after : List Item}

theorem Cuts.ofChars_append (h : Cuts position cs items rest) :
    Item.ofChars position (cs ++ rest) =
      items ++ Item.ofChars (position + byteLength cs) rest := by
  induction h with
  | nil => simp
  | blank hc _ ih =>
    rw [List.cons_append, Item.ofChars_blank hc, ih, byteLength_cons, Nat.add_assoc]
  | @lexeme position l cs items rest hl _ ih =>
    obtain ⟨c, ds, hs, hc, hfirst⟩ := Lexeme.first_of_endsBefore hl
    rw [hs, List.append_assoc, List.cons_append, Item.ofChars_lexeme hc, hfirst, ih,
      List.cons_append, ← hs, byteLength_append, Nat.add_assoc]

theorem cuts_ofChars (position : Nat) (cs : List Char) :
    Cuts position cs (Item.ofChars position cs) [] := by
  induction cs using Item.ofChars_induction generalizing position with
  | nil =>
    rw [Item.ofChars_nil]
    exact .nil position []
  | blank c cs hc ih =>
    rw [Item.ofChars_blank hc]
    exact .blank hc (ih _)
  | lexeme c cs hc ih =>
    have hl := Lexeme.endsBefore_first hc cs
    rw [← List.append_nil (Lexeme.first c cs).2] at hl
    rw [Item.ofChars_lexeme hc, ← Lexeme.spelling_first c cs]
    exact .lexeme hl (ih _)

/-- **A text is cut in one way.** -/
theorem cuts_iff : Cuts position cs items [] ↔ items = Item.ofChars position cs := by
  constructor
  · intro h
    simpa using h.ofChars_append.symm
  · rintro rfl
    exact cuts_ofChars position cs

theorem Cuts.spelled (h : Cuts position cs items rest) {t : Token}
    (ht : .token t ∈ items.map (·.piece)) : ∃ ds, t.Spelled ds := by
  induction h with
  | nil => cases ht
  | blank _ _ ih => exact ih ht
  | lexeme hl _ ih =>
    rcases List.mem_cons.1 ht with ht | ht
    · cases hl with
      | token hspelled _ =>
        cases ht
        exact ⟨_, hspelled⟩
      | bad => cases ht
    · exact ih ht

/-! ## Parts -/

/-- A text that is cut into two runs of items is divided between them, and the blanks before the
second run belong to the first part. -/
theorem Cuts.split (h : Cuts position cs (before ++ after) rest) :
    ∃ front back, cs = front ++ back ∧ Cuts position front before (back ++ rest) ∧
      Cuts (position + byteLength front) back after rest ∧ ∀ c ∈ back.head?, ¬ isBlank c := by
  generalize hitems : before ++ after = items at h
  induction h generalizing before with
  | nil position rest =>
    obtain ⟨rfl, rfl⟩ := List.append_eq_nil_iff.1 hitems
    exact ⟨[], [], rfl, .nil _ _, .nil _ _, nofun⟩
  | blank hc _ ih =>
    obtain ⟨front, back, rfl, hfront, hback, hhead⟩ := ih hitems
    rw [Nat.add_assoc] at hback
    exact ⟨_ :: front, back, rfl, .blank hc hfront, hback, hhead⟩
  | @lexeme position l cs items rest hl hcs ih =>
    cases before with
    | nil =>
      obtain rfl : after = ⟨l.piece, position⟩ :: items := hitems
      refine ⟨[], l.spelling ++ cs, rfl, .nil _ _, .lexeme hl hcs, ?_⟩
      obtain ⟨c, ds, hs, hc, -⟩ := Lexeme.first_of_endsBefore hl
      rw [hs]
      rintro _ ⟨⟩
      exact hc
    | cons item before =>
      obtain ⟨rfl, hrest⟩ := List.cons.inj hitems
      obtain ⟨front, back, rfl, hfront, hback, hhead⟩ := ih hrest
      rw [List.append_assoc] at hl
      rw [Nat.add_assoc, ← byteLength_append] at hback
      have hs : l.spelling ++ (front ++ back) = l.spelling ++ front ++ back :=
        (List.append_assoc ..).symm
      exact ⟨l.spelling ++ front, back, hs, .lexeme hl hfront, hback, hhead⟩

theorem Cuts.exists_lexeme {item : Item} (h : Cuts position cs (item :: after) rest)
    (hc : ∀ c ∈ cs.head?, ¬ isBlank c) :
    ∃ (l : Lexeme) (ds : List Char), cs = l.spelling ++ ds ∧ l.EndsBefore (ds ++ rest) ∧
      item = ⟨l.piece, position⟩ := by
  cases h with
  | blank hblank => exact (hc _ rfl hblank).elim
  | lexeme hl _ => exact ⟨_, _, rfl, hl, rfl⟩

theorem Cuts.exists_stray {e : LexicalError}
    (h : Cuts position cs (before ++ ⟨.bad e.text, e.position⟩ :: after) rest) :
    ∃ front text back, cs = front ++ (text ++ back) ∧
      Cuts position front before (text ++ back ++ rest) ∧ Stray text (back ++ rest) ∧
        e = ⟨String.ofList text, position + byteLength front⟩ := by
  obtain ⟨front, back, rfl, hfront, hback, hhead⟩ := h.split
  obtain ⟨l, ds, rfl, hl, he⟩ := hback.exists_lexeme hhead
  obtain ⟨text, place⟩ := e
  cases hl with
  | token => cases he
  | bad hstray =>
    cases he
    exact ⟨front, _, ds, rfl, hfront, hstray, rfl⟩

theorem Cuts.ofChars_stray {text back : List Char} (h : Cuts position cs items (text ++ back))
    (hstray : Stray text back) :
    Item.ofChars position (cs ++ (text ++ back)) =
      items ++ ⟨.bad (String.ofList text), position + byteLength cs⟩ ::
        Item.ofChars (position + byteLength cs + byteLength text) back := by
  have hl : Lexeme.EndsBefore ⟨.bad (String.ofList text), text⟩ ([] ++ back) := .bad hstray
  have htext : Cuts (position + byteLength cs) (text ++ [])
      [⟨.bad (String.ofList text), position + byteLength cs⟩] back := .lexeme hl (.nil _ _)
  rw [List.append_nil] at htext
  rw [h.ofChars_append, htext.ofChars_append]
  rfl

variable {source : String}

/-- A source is parted in front of the item of any number, or at its end. -/
theorem exists_parts (source : String) (n : Nat) :
    ∃ front back, source.toList = front ++ back ∧
      Cuts 0 front ((Item.ofSource source).take n) back ∧
        Cuts (byteLength front) back ((Item.ofSource source).drop n) [] ∧
          ∀ c ∈ back.head?, ¬ isBlank c := by
  have hcuts := cuts_ofChars 0 source.toList
  rw [← List.take_append_drop n (Item.ofChars 0 source.toList)] at hcuts
  obtain ⟨front, back, hsource, hfront, hback, hhead⟩ := hcuts.split
  rw [List.append_nil] at hfront
  rw [Nat.zero_add] at hback
  exact ⟨front, back, hsource, hfront, hback, hhead⟩

theorem exists_stray_of_tokenize {e : LexicalError} (h : tokenize source = .error e) :
    ∃ front text back items, ∃ ts : List Token, source.toList = front ++ (text ++ back) ∧
      Cuts 0 front items (text ++ back) ∧ items.map (·.piece) = ts.map .token ∧
        Stray text back ∧ e = ⟨String.ofList text, byteLength front⟩ := by
  rcases Item.tokens_or_bad (Item.ofSource source) with ⟨ts, hts⟩ | ⟨ts, before, after, f, hts, hf⟩
  · cases h.symm.trans (tokenize_of_tokens hts)
  · obtain rfl : f = e := Except.error.inj ((tokenize_of_bad hts hf).symm.trans h)
    obtain ⟨front, text, back, hs, hcuts, hstray, he⟩ := (cuts_iff.2 hf.symm).exists_stray
    simp only [List.append_nil, Nat.zero_add] at hcuts hstray he
    exact ⟨front, text, back, before, ts, hs, hcuts, hts, hstray, he⟩

/-- **Tokens are cut off by maximal munch.** A source is cut in one way. Its tokens are what it is
cut into, each up to where the text does not go on with it, and if there is stray text, then the
first is the error. -/
theorem tokenize_iff_cuts (source : String) :
    (∀ items, Cuts 0 source.toList items [] ↔ items = Item.ofSource source) ∧
    (∀ ts : List Token, tokenize source = .ok ts ↔
      ∃ items, Cuts 0 source.toList items [] ∧ items.map (·.piece) = ts.map .token) ∧
    ∀ e : LexicalError, tokenize source = .error e ↔
      ∃ front text back items, ∃ ts : List Token, source.toList = front ++ (text ++ back) ∧
        Cuts 0 front items (text ++ back) ∧ items.map (·.piece) = ts.map .token ∧
          Stray text back ∧ e = ⟨String.ofList text, byteLength front⟩ := by
  refine ⟨fun items => cuts_iff, fun ts => ?_, fun e => ⟨exists_stray_of_tokenize, ?_⟩⟩
  · rw [tokenize_eq_ok_iff]
    constructor
    · exact fun h => ⟨_, cuts_ofChars 0 _, h⟩
    · rintro ⟨items, hcuts, hts⟩
      rwa [cuts_iff.1 hcuts] at hts
  · rintro ⟨front, text, back, items, ts, hs, hcuts, hts, hstray, rfl⟩
    have hitems := hcuts.ofChars_stray hstray
    rw [← hs, Nat.zero_add] at hitems
    exact tokenize_of_bad (e := ⟨_, _⟩) hts hitems

end Formula
