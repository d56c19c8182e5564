import Mathlib
import Formula.Proofs.Boundary
import Formula.Proofs.WiderLimits

/-!
# What an error depends on

Reading looks at no item behind the one where it fails. Beside a source the same source is read with
bad text put in behind a position: up to the position the two runs are one, and behind it the second
run cannot come.

* `Near`: where the two runs stand. `blocking`: this is a simulation.
* **`parse_of_common`**: two sources with the same items up to a position have the same errors
  there.
* `exists_standsBetween`: every error in front of the end has a lexeme.
* **`error_depends_on_front`**: what stands behind that lexeme does not count.
-/

namespace Formula

/-! ## Two runs -/

/-- The cursors stand on one token. Up to `point` they have the same items ahead, and behind it the
second one has the bad text `stop` ahead. -/
structure Cursor.Blocked (point : Nat) (stop : LexicalError) (c c' : Cursor) : Prop where
  token : c'.token = c.token
  position : c'.position = c.position
  finish : point < c.finish
  rest : ∃ front back behind : List Item, c.rest = front ++ back ∧
    c'.rest = front ++ ⟨.bad stop.text, stop.position⟩ :: behind ∧
      back.length ≤ behind.length ∧ ∀ item ∈ back, point < item.position

/-- The second run is blocked behind `point`, or the first one is there already and is compared with
itself. -/
def Near (point : Nat) (stop : LexicalError) (c c' : Cursor) : Prop :=
  c.Rising ∧ (c.Blocked point stop c' ∨ c' = c ∧ point < c.position)

namespace Reading

variable {c d : Cursor} {α : Type} {p : Nat}

theorem Reaches.of_eq {r : Reading c α} {s : Reading d α} (hs : s.Reaches p) (h : r.1 = s.1) :
    r.Reaches p := by
  unfold Reaches Yields at hs ⊢
  rwa [h]

theorem Reaches.of_error {r : Reading c α} {e : ParseError} (h : r.1 = (.error e, d))
    (hp : p ≤ e.position) : r.Reaches p := by
  unfold Reaches Yields
  rwa [h]

end Reading

/-- The runs come to the same, and stand near one another. -/
inductive Same (point : Nat) (stop : LexicalError) {α : Type} :
    Except ParseError α × Cursor → Except ParseError α × Cursor → Prop
  | ok {a : α} {d d' : Cursor} : Near point stop d d' → Same point stop (.ok a, d) (.ok a, d')
  | error {e : ParseError} {d d' : Cursor} : Same point stop (.error e, d) (.error e, d')

/-- The runs come to the same, unless the second one is blocked and the first one comes to a place
behind the point. -/
structure Blocks (point : Nat) (stop : LexicalError) {c c' : Cursor} {α : Type} (r : Reading c α)
    (r' : Reading c' α) : Prop where
  reaches : r.Reaches c.position
  outcome : Same point stop r.1 r'.1 ∨
    r'.1.1 = .error (.lexical stop) ∧ r.Reaches (point + 1)

namespace Cursor

variable {point : Nat} {stop : LexicalError} {c c' d d' : Cursor} {α β : Type}

theorem Blocked.unread_le (h : c.Blocked point stop c') : c.unread ≤ c'.unread := by
  obtain ⟨front, back, behind, hrest, hrest', hlength, -⟩ := h.rest
  rw [unread, unread, h.token, hrest, hrest']
  simp only [List.length_append, List.length_cons]
  omega

/-- How the two runs move on. -/
inductive Moves (point : Nat) (stop : LexicalError) (c c' : Cursor) : Prop
  | both {d d' : Cursor} : c.advance = (.ok (), d) → c'.advance = (.ok (), d') →
    Near point stop d d' → c.position ≤ d.position → Moves point stop c c'
  | bad {e : LexicalError} {d d' : Cursor} : c.advance = (.error e, d) →
    c'.advance = (.error e, d') → c.position ≤ e.position → Moves point stop c c'
  | blocked {d d' : Cursor} : c.advance = (.ok (), d) → c'.advance = (.error stop, d') →
    d.Rising → c.position ≤ d.position → point < d.position → c.unread ≤ c'.unread →
      Moves point stop c c'
  | blockedBad {e : LexicalError} {d d' : Cursor} : c.advance = (.error e, d) →
    c'.advance = (.error stop, d') → c.position ≤ e.position → point < e.position →
      Moves point stop c c'

theorem Blocked.moves (h : c.Blocked point stop c') (hc : c.Rising) : Moves point stop c c' := by
  have hunread := h.unread_le
  obtain ⟨token, position, rest, finish⟩ := c
  obtain ⟨_, _, _, finish'⟩ := c'
  obtain ⟨rfl, rfl, hfinish, front, back, behind, rfl, rfl, hlength, hback⟩ := h
  match front with
  | [] =>
    match back with
    | [] =>
      obtain ⟨hrising, hle⟩ := hc.advance (d := ⟨none, finish, [], finish⟩) rfl
      exact .blocked rfl rfl hrising hle hfinish hunread
    | ⟨.token t, p⟩ :: back =>
      obtain ⟨hrising, hle⟩ := hc.advance (d := ⟨some t, p, back, finish⟩) rfl
      exact .blocked rfl rfl hrising hle (hback _ (.head _)) hunread
    | ⟨.bad text, p⟩ :: back =>
      exact .blockedBad rfl rfl (hc.le_of_bad (e := ⟨text, p⟩) rfl) (hback _ (.head _))
  | ⟨.token t, p⟩ :: front =>
    obtain ⟨hrising, hle⟩ := hc.advance (d := ⟨some t, p, front ++ back, finish⟩) rfl
    refine .both rfl rfl ⟨hrising, .inl ⟨rfl, rfl, hfinish, ?_⟩⟩ hle
    exact ⟨front, back, behind, rfl, rfl, hlength, hback⟩
  | ⟨.bad text, p⟩ :: front =>
    exact .bad rfl rfl (hc.le_of_bad (e := ⟨text, p⟩) rfl)

end Cursor

namespace Near

variable {point : Nat} {stop : LexicalError} {c c' : Cursor}

theorem token_eq (h : Near point stop c c') : c'.token = c.token := by
  obtain ⟨-, hblocked | ⟨rfl, -⟩⟩ := h
  · exact hblocked.token
  · rfl

theorem position_eq (h : Near point stop c c') : c'.position = c.position := by
  obtain ⟨-, hblocked | ⟨rfl, -⟩⟩ := h
  · exact hblocked.position
  · rfl

theorem unread_le (h : Near point stop c c') : c.unread ≤ c'.unread := by
  obtain ⟨-, hblocked | ⟨rfl, -⟩⟩ := h
  · exact hblocked.unread_le
  · exact Nat.le_refl _

theorem moves (h : Near point stop c c') : Cursor.Moves point stop c c' := by
  obtain ⟨hc, hblocked | ⟨rfl, hpoint⟩⟩ := h
  · exact hblocked.moves hc
  · rcases ha : c'.advance with ⟨e | _, d⟩
    · exact .bad ha ha (hc.le_of_bad ha)
    · obtain ⟨hrising, hle⟩ := hc.advance ha
      exact .both ha ha ⟨hrising, .inr ⟨rfl, Nat.lt_of_lt_of_le hpoint hle⟩⟩ hle

end Near

namespace Blocks

variable {point : Nat} {stop : LexicalError} {c c' : Cursor} {α β : Type}

theorem of_ok (h : Near point stop c c') (a : α) :
    Blocks point stop (.stay c (.ok a)) (.stay c' (.ok a)) :=
  ⟨Reading.reaches_ok h.1 a, .inl (.ok h)⟩

theorem of_error {e : ParseError} (h : e.position = c.position) :
    Blocks point stop (.stay c (.error e : Except ParseError α)) (.stay c' (.error e)) :=
  ⟨Reading.reaches_error h, .inl .error⟩

theorem check {P : Prop} [Decidable P] {error : Nat → ParseError} {r : Reading c α}
    {r' : Reading c' α} (h : Near point stop c c') (hr : Blocks point stop r r')
    (he : ∀ position, (error position).position = position) :
    Blocks point stop (if P then .stay c (.error (error c.position)) else r)
      (if P then .stay c' (.error (error c'.position)) else r') := by
  rw [h.position_eq]
  split_ifs
  · exact of_error (he _)
  · exact hr

theorem past {ht : c.token.isSome} {ht' : c'.token.isSome}
    {k : (d : Cursor) → d.unread < c.unread → Reading d α}
    {k' : (d : Cursor) → d.unread < c'.unread → Reading d α} (h : Near point stop c c')
    (hk : ∀ d d' hd hd', Near point stop d d' → Blocks point stop (k d hd) (k' d' hd')) :
    Blocks point stop (c.past ht k) (c'.past ht' k') := by
  cases h.moves with
  | @both d d' hd hd' hnear hle =>
    have hlt : d.unread < c.unread := by simpa [hd] using Cursor.unread_advance_lt ht
    have hlt' : d'.unread < c'.unread := by simpa [hd'] using Cursor.unread_advance_lt ht'
    obtain ⟨hreaches, houtcome⟩ := hk d d' hlt hlt' hnear
    refine ⟨(hreaches.of_eq (Cursor.past_of_ok hd)).mono hle, ?_⟩
    rw [Cursor.past_of_ok hd, Cursor.past_of_ok hd']
    exact houtcome.imp_right fun hstop => ⟨hstop.1, hstop.2.of_eq (Cursor.past_of_ok hd)⟩
  | bad hd hd' hle =>
    refine ⟨.of_error (Cursor.past_of_error hd) hle, .inl ?_⟩
    rw [Cursor.past_of_error hd, Cursor.past_of_error hd']
    exact .error
  | @blocked d d' hd hd' hrising hle hpoint hunread =>
    have hlt : d.unread < c.unread := by simpa [hd] using Cursor.unread_advance_lt ht
    have hself := hk d d hlt (Nat.lt_of_lt_of_le hlt hunread) ⟨hrising, .inr ⟨rfl, hpoint⟩⟩
    have hreaches : (c.past ht k).Reaches d.position := hself.reaches.of_eq (Cursor.past_of_ok hd)
    refine ⟨hreaches.mono hle, .inr ⟨?_, hreaches.mono hpoint⟩⟩
    exact congrArg Prod.fst (Cursor.past_of_error hd')
  | blockedBad hd hd' hle hpoint =>
    refine ⟨.of_error (Cursor.past_of_error hd) hle, .inr ⟨?_, ?_⟩⟩
    · exact congrArg Prod.fst (Cursor.past_of_error hd')
    · exact .of_error (Cursor.past_of_error hd) hpoint

theorem andThen {r : Reading c α} {r' : Reading c' α}
    {k : α → (d : Cursor) → d.unread ≤ c.unread → Reading d β}
    {k' : α → (d : Cursor) → d.unread ≤ c'.unread → Reading d β} (h : Near point stop c c')
    (hr : Blocks point stop r r')
    (hk : ∀ a d d' hd hd', Near point stop d d' → Blocks point stop (k a d hd) (k' a d' hd')) :
    Blocks point stop (r.andThen k) (r'.andThen k') := by
  obtain ⟨hreaches, houtcome⟩ := hr
  obtain ⟨⟨outcome, d⟩, hd⟩ := r
  obtain ⟨⟨outcome', d'⟩, hd'⟩ := r'
  rcases houtcome with hsame | ⟨hstop, hbehind⟩
  · cases hsame with
    | @ok a _ _ hnear =>
      obtain ⟨hreaches', houtcome'⟩ := hk a d d' hd hd' hnear
      exact ⟨hreaches'.mono hreaches.2, houtcome'⟩
    | error => exact ⟨hreaches, .inl .error⟩
  · cases hstop
    cases outcome with
    | error e => exact ⟨hreaches, .inr ⟨rfl, hbehind⟩⟩
    | ok a =>
      -- behind the point the first run is compared with itself
      have hself := (hk a d d hd (Nat.le_trans hd h.unread_le)
        ⟨hreaches.1, .inr ⟨rfl, hbehind.2⟩⟩).reaches
      exact ⟨hself.mono hreaches.2, .inr ⟨rfl, hself.mono hbehind.2⟩⟩

end Blocks

/-- A run beside the one that is blocked. -/
def blocking (point : Nat) (stop : LexicalError) (limits : Limits) : Simulation limits limits where
  Near := Near point stop
  Agree r r' := Blocks point stop r r'
  token h := h.token_eq
  ok := Blocks.of_ok
  mark := by
    intro c c' α mark h hm
    rw [h.position_eq]
    exact .of_error (hm.position _)
  nested h hk := .check h hk fun _ => rfl
  height _ h hr := .check h hr fun _ => rfl
  past h hk := .past h hk
  andThen h hr hk := .andThen h hr hk

/-! ## Sources -/

section Sources

variable {source source' : String} {limits : Limits} {err : ParseError} {items : List Item}
  {position : Nat}

theorem ofSource_token {t : Token} (h : Item.ofSource source = ⟨.token t, position⟩ :: items) :
    Cursor.ofSource source = .ok ⟨some t, position, items, source.utf8ByteSize⟩ := by
  unfold Cursor.ofSource Cursor.before
  rw [h]
  rfl

theorem ofSource_bad {text : String} (h : Item.ofSource source = ⟨.bad text, position⟩ :: items) :
    Cursor.ofSource source = .error ⟨text, position⟩ := by
  unfold Cursor.ofSource Cursor.before
  rw [h]
  rfl

theorem Same.error_iff {point : Nat} {stop : LexicalError} {α : Type}
    {r r' : Except ParseError α × Cursor} (h : Same point stop r r') :
    r.1 = .error err ↔ r'.1 = .error err := by
  cases h with
  | ok => exact ⟨nofun, nofun⟩
  | error => exact Iff.rfl

/-- **Two sources with the same items up to a position have the same errors there.** -/
theorem parse_of_common {front back back' : List Item} (hfront : front ≠ [])
    (hs : Item.ofSource source = front ++ back) (hs' : Item.ofSource source' = front ++ back')
    (hback : ∀ i ∈ back, err.position < i.position)
    (hback' : ∀ i ∈ back', err.position < i.position)
    (hend : err.position < source.utf8ByteSize) (hend' : err.position < source'.utf8ByteSize)
    (h : parse source limits = .error err) : parse source' limits = .error err := by
  obtain ⟨⟨t | text, position⟩, front, rfl⟩ := List.exists_cons_of_ne_nil hfront
  · have hc := ofSource_token hs
    have hc' := ofSource_token hs'
    rw [parse_eq_expression hc, Cursor.expression_eq_whole] at h
    rw [parse_eq_expression hc', Cursor.expression_eq_whole]
    -- both runs are compared with one that is blocked right behind the error
    let stop : LexicalError := ⟨"", err.position + 1⟩
    let blocked : Cursor :=
      ⟨some t, position, front ++ ⟨.bad stop.text, stop.position⟩ :: (back ++ back'), 0⟩
    have hnear : Near err.position stop ⟨some t, position, front ++ back, _⟩ blocked :=
      ⟨Cursor.rising_of_ofSource hc,
        .inl ⟨rfl, rfl, hend, front, back, _, rfl, rfl, by simp, hback⟩⟩
    have hnear' : Near err.position stop ⟨some t, position, front ++ back', _⟩ blocked :=
      ⟨Cursor.rising_of_ofSource hc',
        .inl ⟨rfl, rfl, hend', front, back', _, rfl, rfl, by simp, hback'⟩⟩
    have hblocked : (blocked.whole limits).1.1 = .error err := by
      rcases ((blocking _ _ limits).whole hnear).outcome with hsame | ⟨-, hbehind⟩
      · exact hsame.error_iff.1 h
      · exact absurd (hbehind.le_position h) (Nat.not_succ_le_self _)
    rcases ((blocking _ _ limits).whole hnear').outcome with hsame | ⟨hstop, -⟩
    · exact hsame.error_iff.2 hblocked
    · have herr : err.position = err.position + 1 :=
        congrArg ParseError.position (Except.error.inj (hblocked.symm.trans hstop))
      omega
  · rw [parse_eq_error (ofSource_bad hs)] at h
    rw [parse_eq_error (ofSource_bad hs')]
    exact h

/-- An error in front of the end stands on a lexeme. -/
theorem exists_standsBetween (h : parse source limits = .error err)
    (hend : err.position < source.utf8ByteSize) :
    ∃ (l : Lexeme) (front back : List Char), source.toList = front ++ (l.spelling ++ back) ∧
      l.StandsBetween front back ∧ byteLength front = err.position := by
  have hoffset := parse_error_offset h
  generalize itemsBefore source err.position = n at hoffset
  obtain ⟨front, back, hsource, hfront, hback, hhead⟩ := exists_parts source n
  rw [offset, ← List.head?_drop] at hoffset
  cases hdrop : (Item.ofSource source).drop n with
  | nil =>
    rw [hdrop] at hoffset
    exact absurd hoffset (Nat.ne_of_lt hend)
  | cons item items =>
    rw [hdrop] at hoffset hback
    obtain ⟨l, rest, rfl, hl, rfl⟩ := hback.exists_lexeme hhead
    rw [List.append_nil] at hl
    exact ⟨l, front, rest, hsource, ⟨⟨_, hfront⟩, hl⟩, hoffset.symm⟩

end Sources

/-- **An error depends only on the text up to where it was detected.** An error in front of the end
stands on a token or bad text. Whatever comes behind that, if it does not go on with it, the error
is the same. -/
theorem error_depends_on_front {source : String} {limits : Limits} {err : ParseError}
    (h : parse source limits = .error err) (hend : err.position < source.utf8ByteSize) :
    ∃ (l : Lexeme) (front back : List Char), source.toList = front ++ (l.spelling ++ back) ∧
      l.StandsBetween front back ∧ byteLength front = err.position ∧
        ∀ tail : String, (∀ c ∈ tail.toList.head?, isBlank c ∨ c = '(' ∨ c = ')') →
          parse (.ofList (front ++ l.spelling) ++ tail) limits = .error err := by
  obtain ⟨l, front, back, hsource, hstands, hposition⟩ := exists_standsBetween h hend
  refine ⟨l, front, back, hsource, hstands, hposition, fun tail htail => ?_⟩
  have hdelimited : Delimited tail.toList := by
    intro c hc
    rcases htail c hc with hblank | rfl | rfl
    · exact delimited_of_isBlank hblank [] c rfl
    · decide
    · decide
  obtain ⟨items, hcut⟩ := hstands.cut_behind
  have hpoint : err.position < byteLength (front ++ l.spelling) := by
    have := byteLength_pos hstands.ends.spelling_ne_nil
    rw [byteLength_append]
    omega
  have hbehind : ∀ cs, ∀ item ∈ Item.ofChars (0 + byteLength (front ++ l.spelling)) cs,
      err.position < item.position := by
    intro cs item hitem
    have hle := ((Item.ofChars_positions _ cs).2 item hitem).1
    omega
  have hs : Item.ofSource source = items ++ [⟨l.piece, byteLength front⟩] ++
      Item.ofChars (0 + byteLength (front ++ l.spelling)) back := by
    rw [← hcut.ofChars_append, List.append_assoc, ← hsource]
    rfl
  have hs' : Item.ofSource (.ofList (front ++ l.spelling) ++ tail) =
      items ++ [⟨l.piece, byteLength front⟩] ++
        Item.ofChars (0 + byteLength (front ++ l.spelling)) tail.toList := by
    rw [← (hcut.replace hdelimited).ofChars_append, Item.ofSource, String.toList_append,
      String.toList_ofList]
  have hend' : err.position < (String.ofList (front ++ l.spelling) ++ tail).utf8ByteSize := by
    rw [String.utf8ByteSize_append, ← byteLength_toList, String.toList_ofList]
    omega
  exact parse_of_common (by simp) hs hs' (hbehind back) (hbehind tail.toList) hend hend' h

/-- A group is not closed in front of the second name. It stays so whether that is called or
followed by more. -/
theorem error_depends_on_front_unclosed :
    parse "(a b" = .error (.expectedClosing 3) ∧ parse "(a b()" = .error (.expectedClosing 3) ∧
      parse "(a b)) @" = .error (.expectedClosing 3) := by
  have hunclosed : parse "(a b" = .error (.expectedClosing 3) := by cbv
  have hend : (ParseError.expectedClosing 3).position < "(a b".utf8ByteSize := by decide
  obtain ⟨l, front, back, hsource, hstands, hposition, h⟩ := error_depends_on_front hunclosed hend
  have htext : front ++ (l.spelling ++ back) = ['(', 'a', ' '] ++ ['b'] := hsource.symm
  obtain ⟨rfl, hname⟩ := append_inj_of_byteLength htext hposition
  have hspelling : l.spelling = ['b'] := by
    have hne := hstands.ends.spelling_ne_nil
    rcases List.append_eq_singleton_iff.1 hname with ⟨hl, -⟩ | ⟨hl, -⟩
    · exact (hne hl).elim
    · exact hl
  rw [hspelling] at h
  refine ⟨hunclosed, h "()" ?_, h ")) @" ?_⟩
  · rintro _ ⟨⟩
    exact .inr (.inl rfl)
  · rintro _ ⟨⟩
    exact .inr (.inr rfl)

end Formula
