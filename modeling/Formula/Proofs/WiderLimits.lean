import Mathlib
import Formula.Proofs.Failure
import Formula.Proofs.Positions
import Formula.Proofs.Simulation

/-!
# Wider limits

Limits cut reading short and do nothing else. What is read within some limits, and what is wrong
with a source there, is the same within wider ones.

* `Cursor.Rising`: no position ahead is in front of where the cursor stands.
* `Reading.Reaches`: a reading ends at a position or behind it, whatever its outcome is.
* `Outdoes`: what a run under wider limits makes of the first one: the same up to an error of the
  limits, and from there it goes on. `widening`: this is a simulation.
* **`parse_of_wider`**: a source under two limits.
-/

namespace Formula

/-! ## Positions ahead -/

namespace Cursor

/-- The positions ahead do not fall, and the end of the source is the last of them. -/
def Rising (c : Cursor) : Prop :=
  (c.position :: (c.rest.map (·.position) ++ [c.finish])).Pairwise (· ≤ ·)

variable {c d : Cursor}

theorem Rising.advance (h : c.Rising) (hd : c.advance = (.ok (), d)) :
    d.Rising ∧ c.position ≤ d.position := by
  obtain ⟨token, position, rest, finish⟩ := c
  obtain ⟨hle, hrest⟩ := List.pairwise_cons.1 h
  match rest, hd with
  | [], rfl => exact ⟨by simp [Rising], hle finish (.head _)⟩
  | ⟨.token _, p⟩ :: _, rfl => exact ⟨hrest, hle p (.head _)⟩

theorem Rising.le_of_bad {e : LexicalError} (h : c.Rising) (hd : c.advance = (.error e, d)) :
    c.position ≤ e.position := by
  obtain ⟨token, position, rest, finish⟩ := c
  obtain ⟨hle, -⟩ := List.pairwise_cons.1 h
  match rest, hd with
  | ⟨.bad _, p⟩ :: _, rfl => exact hle p (.head _)

theorem rising_before (source : String) : (before source).Rising := by
  obtain ⟨hrise, hin⟩ := Item.ofChars_positions 0 source.toList
  refine List.pairwise_cons.2 ⟨fun p _ => Nat.zero_le p, List.pairwise_append.2 ⟨?_, ?_, ?_⟩⟩
  · exact List.pairwise_map.2 (hrise.imp Nat.le_of_lt)
  · exact List.pairwise_singleton ..
  · intro p hp q hq
    obtain ⟨item, hitem, rfl⟩ := List.mem_map.1 hp
    cases List.mem_singleton.1 hq
    have hlt := (hin item hitem).2
    rw [Nat.zero_add, byteLength_toList] at hlt
    exact Nat.le_of_lt hlt

theorem rising_of_ofSource {source : String} (h : ofSource source = .ok c) : c.Rising :=
  ((rising_before source).advance (advance_of_ofSource h)).1

end Cursor

/-! ## Readings -/

namespace Reading

variable {c d : Cursor} {α : Type} {p q : Nat}

/-- The reading ends at a position or behind it. -/
def Reaches (p : Nat) (r : Reading c α) : Prop :=
  r.Yields (fun _ d => d.Rising ∧ p ≤ d.position) fun e => p ≤ e.position

theorem Reaches.mono {r : Reading c α} (h : r.Reaches p) (hle : q ≤ p) : r.Reaches q :=
  Yields.mono h (fun _ _ hd => ⟨hd.1, Nat.le_trans hle hd.2⟩) fun _ => Nat.le_trans hle

theorem reaches_ok (h : c.Rising) (a : α) : (stay c (.ok a)).Reaches c.position :=
  ⟨h, Nat.le_refl _⟩

theorem reaches_error {e : ParseError} (h : e.position = c.position) :
    (stay c (.error e : Except ParseError α)).Reaches c.position :=
  Nat.le_of_eq h.symm

theorem Reaches.le_position {r : Reading c α} {e : ParseError} (h : r.Reaches p)
    (he : r.1.1 = .error e) : p ≤ e.position := by
  obtain ⟨⟨_, d⟩, hd⟩ := r
  cases he
  exact h

end Reading

/-- The error is about these limits. -/
def ParseError.IsOf (limits : Limits) (e : ParseError) : Prop :=
  e = .nestingTooDeep limits.depth e.position ∨ e = .tooLarge limits.height e.position

theorem Mark.isLimit {mark : Nat → ParseError} (h : Mark mark) (position : Nat) :
    (mark position).isLimit = false := by
  cases h <;> rfl

/-- The second run makes of its cursor what the first one does, unless that fails at its limits.
Then the second run comes at least as far. -/
structure Outdoes (limits : Limits) {c c' : Cursor} {α : Type} (r : Reading c α)
    (r' : Reading c' α) : Prop where
  reaches : r'.Reaches c'.position
  ok : ∀ a d, r.1 = (.ok a, d) → r'.1 = (.ok a, d)
  error : ∀ e, r.1.1 = .error e → e.isLimit = false → r'.1.1 = .error e
  limit : ∀ e, r.1.1 = .error e → e.isLimit → e.IsOf limits ∧ r'.Reaches e.position

namespace Outdoes

variable {limits wider : Limits} {c : Cursor} {α β : Type}

theorem of_ok (h : c.Rising) (a : α) :
    Outdoes limits (.stay c (.ok a)) (.stay c (.ok a) : Reading c α) :=
  ⟨Reading.reaches_ok h a, fun _ _ => id, nofun, nofun⟩

theorem of_mark {mark : Nat → ParseError} (h : Mark mark) :
    Outdoes limits (.stay c (.error (mark c.position)))
      (.stay c (.error (mark c.position)) : Reading c α) := by
  refine ⟨Reading.reaches_error (h.position _), nofun, fun _ he _ => he, ?_⟩
  rintro _ ⟨⟩ hl
  exact absurd (hl.symm.trans (h.isLimit _)) (by decide)

/-- A check of the limits that the second run passes wherever the first one does. -/
theorem check {P P' : Prop} [Decidable P] [Decidable P'] {e e' : ParseError} {r r' : Reading c α}
    (hP : P' → P) (hl : e.isLimit) (hof : e.IsOf limits) (he : e.position = c.position)
    (he' : e'.position = c.position) (h : Outdoes limits r r') :
    Outdoes limits (if P then .stay c (.error e) else r)
      (if P' then .stay c (.error e') else r') := by
  have hreaches : (if P' then .stay c (.error e') else r').Reaches c.position := by
    split_ifs
    · exact Reading.reaches_error he'
    · exact h.reaches
  by_cases hlim : P
  · rw [if_pos hlim]
    refine ⟨hreaches, nofun, ?_, ?_⟩
    · rintro _ ⟨⟩ hn
      exact absurd (hl.symm.trans hn) (by decide)
    · rintro _ ⟨⟩ -
      rw [he]
      exact ⟨hof, hreaches⟩
  · rw [if_neg hlim, if_neg fun h => hlim (hP h)]
    exact h

theorem past {ht ht' : c.token.isSome} {k k' : (d : Cursor) → d.unread < c.unread → Reading d α}
    (h : c.Rising) (hk : ∀ (d : Cursor) hd hd', d.Rising → Outdoes limits (k d hd) (k' d hd')) :
    Outdoes limits (c.past ht k) (c.past ht' k') := by
  unfold Cursor.past
  split
  next d hd =>
    obtain ⟨hrising, hle⟩ := h.advance hd
    obtain ⟨hreaches, hok, herror, hlimit⟩ := hk d _ _ hrising
    exact ⟨hreaches.mono hle, hok, herror, hlimit⟩
  next e d hd =>
    refine ⟨h.le_of_bad hd, ?_, fun _ he _ => he, ?_⟩
    · rintro _ _ ⟨⟩
    · rintro _ ⟨⟩ ⟨⟩

theorem andThen {r r' : Reading c α}
    {k k' : α → (d : Cursor) → d.unread ≤ c.unread → Reading d β} (h : Outdoes limits r r')
    (hk : ∀ a (d : Cursor) hd hd', d.Rising → Outdoes limits (k a d hd) (k' a d hd')) :
    Outdoes limits (r.andThen k) (r'.andThen k') := by
  obtain ⟨hreaches, hok, herror, hlimit⟩ := h
  -- wherever the first part of the second run came to, its second part goes on from there
  have hgoes : ∀ p, r'.Reaches p → (r'.andThen k').Reaches p := fun p hp =>
    Reading.Yields.andThen hp fun a d hd hP => (hk a d hd hd hP.1).reaches.mono hP.2
  obtain ⟨⟨e | a, d⟩, hd⟩ := r
  · refine ⟨hgoes _ hreaches, nofun, ?_, ?_⟩
    · rintro _ ⟨⟩ hn
      obtain ⟨⟨_, d'⟩, hd'⟩ := r'
      cases herror e rfl hn
      rfl
    · rintro _ ⟨⟩ hl
      exact (hlimit e rfl hl).imp_right (hgoes _)
  · obtain ⟨_, hd'⟩ := r'
    cases hok a d rfl
    have hkd := hk a d hd hd' hreaches.1
    exact ⟨hgoes _ hreaches, hkd.ok, hkd.error, hkd.limit⟩

end Outdoes

/-- Two runs from one cursor, the second under wider limits. -/
def widening {limits wider : Limits} (hdepth : limits.depth ≤ wider.depth)
    (hheight : limits.height ≤ wider.height) : Simulation limits wider where
  Near c c' := c' = c ∧ c.Rising
  Agree r r' := Outdoes limits r r'
  token := fun ⟨h, _⟩ => h ▸ rfl
  ok := by
    rintro c _ α ⟨rfl, hc⟩ a
    exact .of_ok hc a
  mark := by
    rintro c _ α mark ⟨rfl, -⟩ hm
    exact .of_mark hm
  nested := by
    rintro c _ α depth k k' ⟨rfl, -⟩ h
    exact .check hdepth.trans rfl (.inl rfl) rfl rfl h
  height := by
    rintro c _ α r r' height ⟨rfl, -⟩ h
    exact .check (Nat.lt_of_le_of_lt hheight) rfl (.inr rfl) rfl rfl h
  past := by
    rintro c _ α h h' k k' ⟨rfl, hc⟩ hk
    exact .past hc fun d hd hd' hrising => hk d d hd hd' ⟨rfl, hrising⟩
  andThen := by
    rintro c _ α β r r' k k' ⟨rfl, -⟩ h hk
    exact .andThen h fun a d hd hd' hrising => hk a d d hd hd' ⟨rfl, hrising⟩

/-! ## Sources -/

/-- **Limits cut reading short and do nothing else.** What is read within some limits, or is wrong
there for another reason, is the same within wider ones. An error that is about the limits names
them, and within wider limits nothing is wrong in front of it. -/
theorem parse_of_wider {source : String} {limits wider : Limits}
    (hdepth : limits.depth ≤ wider.depth) (hheight : limits.height ≤ wider.height) :
    ((∀ err, parse source limits = .error err → err.isLimit = false) →
      parse source wider = parse source limits) ∧
    ∀ err, parse source limits = .error err → err.isLimit →
      (err = .nestingTooDeep limits.depth err.position ∨
        err = .tooLarge limits.height err.position) ∧
      ∀ err', parse source wider = .error err' → err.position ≤ err'.position := by
  cases hc : Cursor.ofSource source with
  | error e =>
    have hbad := parse_eq_error hc
    refine ⟨fun _ => (hbad wider).trans (hbad limits).symm, fun err herr hl => ?_⟩
    cases (hbad limits).symm.trans herr
    cases hl
  | ok c =>
    have h := (widening hdepth hheight).whole ⟨rfl, Cursor.rising_of_ofSource hc⟩
    have hwhole : ∀ limits, parse source limits = (c.whole limits).1.1 := by
      intro limits
      rw [parse_eq_expression hc, Cursor.expression_eq_whole]
    rw [hwhole, hwhole]
    refine ⟨fun hl => ?_, fun err herr hl => ?_⟩
    · cases hr : (c.whole limits).1.1 with
      | ok e => exact congrArg Prod.fst (h.ok e _ (Prod.ext hr rfl))
      | error err => exact h.error err hr (hl err hr)
    · obtain ⟨hof, hreaches⟩ := h.limit err herr hl
      exact ⟨hof, fun err' herr' => hreaches.le_position herr'⟩

/-- A parenthesis is missing, but behind the place where the narrow limits end. -/
theorem parse_of_wider_unclosed :
    parse "((a)" ⟨1, 8⟩ = .error (.nestingTooDeep 1 2) ∧
      (∀ err, parse "((a)" ⟨2, 9⟩ = .error err → 2 ≤ err.position) ∧
      parse "(a" ⟨1, 8⟩ = .error (.expectedClosing 2) ∧
      parse "(a" ⟨2, 9⟩ = parse "(a" ⟨1, 8⟩ := by
  have hdeep : parse "((a)" ⟨1, 8⟩ = .error (.nestingTooDeep 1 2) := by cbv
  have hopen : parse "(a" ⟨1, 8⟩ = .error (.expectedClosing 2) := by cbv
  have hdepth : (⟨1, 8⟩ : Limits).depth ≤ (⟨2, 9⟩ : Limits).depth := by decide
  have hheight : (⟨1, 8⟩ : Limits).height ≤ (⟨2, 9⟩ : Limits).height := by decide
  refine ⟨hdeep, ((parse_of_wider hdepth hheight).2 _ hdeep rfl).2, hopen,
    (parse_of_wider hdepth hheight).1 fun err herr => ?_⟩
  cases hopen.symm.trans herr
  rfl

end Formula
