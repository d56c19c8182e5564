import Mathlib
import Formula.Proofs.Boundary
import Formula.Proofs.Digits
import Formula.Proofs.Leaves
import Formula.Proofs.Resumption

/-!
# Tokens written one after the other

Tokens are written with blanks before, between and behind them. Only where two neighbours would run
together a blank has to be there: between two names, between two numbers, and between a name and a
number behind it.

* `Token.spelling`, `spacedChars`: how tokens are written.
* `Token.clings`, `Legible`: where blanks are needed.
* `Token.not_goesOn_of_not_clings`: neighbours that do not cling end where they meet.
* **`ofChars_spacedChars`**: the items of such a text are its tokens, where they were put.
* **`tokenize_spaced`**: what is written is read.
-/

namespace Formula

/-! ## Spellings -/

namespace Token

open Binary64 (isNegative isUnsigned)

/-- The token as it is written. -/
def spelling : Token → List Char
  | number value => Double.write Double.plain value
  | name text => text.toList
  | plus => ['+']
  | minus => ['-']
  | star => ['*']
  | slash => ['/']
  | openParen => ['(']
  | closeParen => [')']
  | comma => [',']

/-- The token can be written: a number is finite and without sign, and a name is one. -/
def isWritable : Token → Bool
  | number value => isUnsigned value && !value.isInf
  | name text => Formula.isName text.toList
  | _ => true

/-- With no blank between them the two tokens run together. -/
def clings : Token → Token → Bool
  | name _, name _ => true
  | name _, number _ => true
  | number _, number _ => true
  | _, _ => false

variable {t u : Token} {c : Char} {cs ds : List Char}

theorem spelled_number {x : Float} (hn : isNegative x = false) (hx : x.isNaN = false)
    (hi : x.isInf = false) : (number x).Spelled (Double.write Double.plain x) := by
  refine .number ?_ (Double.read_write x)
  rw [Double.write, hx, hn, if_neg Bool.false_ne_true, if_neg Bool.false_ne_true,
    Double.writeRank_eq_spelling hn hx (Bool.eq_false_iff.1 hi)]
  exact Numeral.isNumber_spelling (Decimal.ofDigits_numeral _) (Decimal.hasDigit_numeral _)

theorem spelled_spelling (h : t.isWritable) : t.Spelled t.spelling := by
  cases t with
  | number value =>
    simp only [isWritable, isUnsigned, Bool.and_eq_true, Bool.not_eq_true'] at h
    exact spelled_number h.1.1 h.1.2 h.2
  | name text =>
    have hname := Spelled.name h
    rwa [String.ofList_toList] at hname
  | _ => constructor

/-- Tokens that do not cling end where they meet. -/
theorem not_goesOn_of_not_clings (h : t.clings u = false) (hu : u.Spelled (c :: cs)) :
    ¬ t.GoesOn ds c := by
  cases t with
  | number value =>
    intro hc
    have hnumber : c.isDigit ∨ c = '.' := hc.imp_right And.left
    cases hu with
    | number => cases h
    | name hname =>
      rw [Formula.isName, Bool.and_eq_true] at hname
      exact not_isNameStart_of_number hnumber hname.1
    | _ => exact absurd hnumber (by decide)
  | name text =>
    cases hu with
    | number => cases h
    | name => cases h
    | _ =>
      show ¬ isNameRest _
      decide
  | _ => exact id

end Token

/-! ## Texts -/

/-- A token behind a run of blanks. -/
structure Spaced where
  blanks : List Char
  token : Token

/-- The text of the tokens, each behind its blanks, in front of the blanks `last`. -/
def spacedChars : List Spaced → List Char → List Char
  | [], last => last
  | w :: ws, last => w.blanks ++ (w.token.spelling ++ spacedChars ws last)

/-- The tokens can be written, between blanks, and those that would run together are kept apart. -/
structure Legible (ws : List Spaced) (last : List Char) : Prop where
  blanks : ∀ w ∈ ws, ∀ c ∈ w.blanks, isBlank c
  last : ∀ c ∈ last, isBlank c
  writable : ∀ w ∈ ws, w.token.isWritable
  apart : ws.IsChain fun v w => v.token.clings w.token → w.blanks ≠ []

/-- The tokens as items, where the first blank stands at byte `position`. -/
def spacedItems (position : Nat) : List Spaced → List Item
  | [] => []
  | w :: ws =>
    ⟨.token w.token, position + byteLength w.blanks⟩ ::
      spacedItems (position + byteLength w.blanks + byteLength w.token.spelling) ws

variable {w : Spaced} {ws : List Spaced} {last : List Char}

theorem Legible.tail (h : Legible (w :: ws) last) : Legible ws last :=
  ⟨fun v hv => h.blanks v (.tail _ hv), h.last, fun v hv => h.writable v (.tail _ hv), h.apart.tail⟩

theorem Legible.endsBefore (h : Legible (w :: ws) last) :
    Lexeme.EndsBefore ⟨.token w.token, w.token.spelling⟩ (spacedChars ws last) := by
  have hblank : ∀ c, isBlank c → ¬ w.token.GoesOn w.token.spelling c := fun c hc =>
    (delimited_of_isBlank hc []).not_goesOn _ _ c rfl
  refine .token (Token.spelled_spelling (h.writable w (.head _))) fun c hc => ?_
  cases ws with
  | nil => exact hblank c (h.last c (List.mem_of_mem_head? hc))
  | cons u ws =>
    obtain ⟨blanks, token⟩ := u
    cases blanks with
    | cons b blanks =>
      obtain rfl : b = c := Option.some.inj hc
      exact hblank b (h.blanks ⟨b :: blanks, token⟩ (.tail _ (.head _)) b (.head _))
    | nil =>
      -- the neighbours meet
      have hspelled := Token.spelled_spelling (h.writable ⟨[], token⟩ (.tail _ (.head _)))
      have hclings : w.token.clings token = false := by
        rw [Bool.eq_false_iff]
        exact fun hclings => (List.isChain_cons_cons.1 h.apart).1 hclings rfl
      obtain ⟨d, ds, hd⟩ := List.exists_cons_of_ne_nil hspelled.ne_nil
      simp only [hd] at hspelled
      rw [spacedChars, List.nil_append, hd] at hc
      cases hc
      exact Token.not_goesOn_of_not_clings hclings hspelled

/-- **The items of the text are its tokens, where they were put.** -/
theorem ofChars_spacedChars (h : Legible ws last) (position : Nat) :
    Item.ofChars position (spacedChars ws last) = spacedItems position ws := by
  induction ws generalizing position with
  | nil =>
    have hlast := ofChars_blanks h.last position []
    rwa [List.append_nil, Item.ofChars_nil] at hlast
  | cons w ws ih =>
    have hword := (Cuts.single h.endsBefore (position + byteLength w.blanks)).ofChars_append
    rw [spacedChars, ofChars_blanks (h.blanks w (.head _)), hword, ih h.tail]
    rfl

theorem map_piece_spacedItems (position : Nat) (ws : List Spaced) :
    (spacedItems position ws).map (·.piece) = (ws.map (·.token)).map .token := by
  induction ws generalizing position with
  | nil => rfl
  | cons w ws ih => rw [spacedItems, List.map_cons, ih, List.map_cons, List.map_cons]

theorem getElem?_spacedItems {k : Nat} (hw : ws[k]? = some w) (position : Nat) :
    (spacedItems position ws)[k]? =
      some ⟨.token w.token, position + byteLength (spacedChars (ws.take k) w.blanks)⟩ := by
  induction ws generalizing k position with
  | nil => cases hw
  | cons v ws ih =>
    cases k with
    | zero =>
      cases hw
      rfl
    | succ k =>
      rw [spacedItems, List.getElem?_cons_succ, ih hw, List.take_succ_cons, spacedChars,
        byteLength_append, byteLength_append]
      simp only [Nat.add_assoc]

/-! ## Reading -/

theorem Cursor.Stands.exists_advanced {c : Cursor} {items : List Item} {ts : List Token}
    (h : c.Stands items) (hts : items.map (·.piece) = ts.map .token) (k : Nat) :
    ∃ d, c.advanced k = .ok d := by
  induction k generalizing c items ts with
  | zero => exact ⟨c, rfl⟩
  | succ k ih =>
    have htail : items.tail.map (·.piece) = ts.tail.map .token := by
      rw [List.map_tail, hts, List.map_tail]
    obtain ⟨d, hd⟩ := exists_advance_ok (c := c) fun item hitem => by
      rw [h.rest] at hitem
      have hmem := List.mem_map_of_mem (f := (·.piece)) (List.mem_of_mem_head? hitem)
      rw [htail] at hmem
      obtain ⟨t, -, ht⟩ := List.mem_map.1 hmem
      exact ⟨t, ht.symm⟩
    have hstands := (stands_of_advance_ok hd).1
    rw [h.rest] at hstands
    obtain ⟨e, he⟩ := ih hstands htail
    refine ⟨e, ?_⟩
    rw [Cursor.advanced, hd]
    exact he

/-- **What is written is read.** Tokens that can be written, with blanks where neighbours would run
together and wherever else one likes, are the tokens of their text, and the cursor finds each of
them where it was put. -/
theorem tokenize_spaced (h : Legible ws last) :
    let source := String.ofList (spacedChars ws last)
    tokenize source = .ok (ws.map (·.token)) ∧
      ∃ c, Cursor.ofSource source = .ok c ∧ ∀ k w, ws[k]? = some w →
        ∃ d, c.advanced k = .ok d ∧ d.token = some w.token ∧
          d.position = byteLength (spacedChars (ws.take k) w.blanks) := by
  intro source
  have hitems : Item.ofSource source = spacedItems 0 ws := by
    rw [Item.ofSource, String.toList_ofList, ofChars_spacedChars h]
  have hpieces := map_piece_spacedItems 0 ws
  rw [← hitems] at hpieces
  have htokens := tokenize_of_tokens hpieces
  obtain ⟨c, -, hc, -⟩ := Cursor.ofSource_passes htokens
  have hstands := (Cursor.ofSource_eq_ok hc).1
  refine ⟨htokens, c, hc, fun k w hw => ?_⟩
  obtain ⟨d, hd⟩ := hstands.exists_advanced hpieces k
  have hhead := (hstands.advanced hd).1.head
  rw [List.head?_drop, hitems, getElem?_spacedItems hw 0, Nat.zero_add] at hhead
  exact ⟨d, hd, Option.map_injective (fun _ _ => Piece.token.inj) hhead.1, hhead.2⟩

/-- A number and a name that begins like an exponent touch, and so do a name and a parenthesis. Two
numbers stand apart by a wide blank. -/
theorem tokenize_spaced_touching :
    let ws : List Spaced := [⟨[], .number 2⟩, ⟨[], .name "e5"⟩, ⟨[], .openParen⟩,
      ⟨[' '], .number 0.5⟩, ⟨['\u3000'], .number 7⟩]
    Legible ws ['\n'] ∧ String.ofList (spacedChars ws ['\n']) = "2e5( 0.5\u30007\n" ∧
      tokenize "2e5( 0.5\u30007\n" =
        .ok [.number 2, .name "e5", .openParen, .number 0.5, .number 7] ∧
      ∃ c d, Cursor.ofSource "2e5( 0.5\u30007\n" = .ok c ∧ c.advanced 4 = .ok d ∧
        d.token = some (.number 7) ∧ d.position = 11 := by
  intro ws
  have h : Legible ws ['\n'] := by
    refine ⟨?_, ?_, ?_, ?_⟩
    · simp [ws, isBlank, blankRanges]
    · simp [isBlank, blankRanges]
    · simp only [ws, List.forall_mem_cons]
      exact ⟨rfl, rfl, rfl, rfl, rfl, List.forall_mem_nil _⟩
    · simp [ws, Token.clings]
  have htext : String.ofList (spacedChars ws ['\n']) = "2e5( 0.5\u30007\n" := by decide +kernel
  obtain ⟨htokens, c, hc, hstands⟩ := tokenize_spaced h
  obtain ⟨d, hd, htoken, hposition⟩ := hstands 4 _ rfl
  rw [htext] at htokens hc
  refine ⟨h, htext, htokens, c, d, hc, hd, htoken, hposition.trans ?_⟩
  decide +kernel

end Formula
