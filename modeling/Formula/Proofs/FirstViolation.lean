import Mathlib
import Formula.Proofs.Acceptance
import Formula.Proofs.Positions

/-!
# Where reading stops

* `stops_of_error`: an error that is not about the limits, by the items of the source.
* `Violation`: the position at which a source leaves the grammar.
* **`first_violation`**: reading stops at the first item that no formula goes on with, and the place
  decides which error this is.
-/

namespace Formula

variable {source : String} {limits : Limits} {err : ParseError} {ts : List Token}

@[simp]
theorem position_fault (needsOperand isOpen : Bool) (next : Option Piece) (position : Nat) :
    (fault needsOperand isOpen next position).position = position := by
  unfold fault
  split
  · rfl
  · split_ifs <;> rfl
  · split_ifs <;> rfl

/-- The tokens before an error have a formula to go on to, and what is at the error does not fit
where they lead. -/
def Stops (ts : List Token) (next : Option Piece) (position : Nat) (err : ParseError) : Prop :=
  Viable ts ∧ ∃ p, Place.start.scan ts = some p ∧ p.Refuses next ∧ err = p.fault next position

theorem stops_of_fails {c : Cursor} (h : Fails (Sentence .sum) (Place.Awaits c.token) c err)
    (hl : err.isLimit = false) :
    ∃ ts next position, c.Meets ts next position ∧ Stops ts next position err := by
  obtain ⟨ts, next, position, hm, hv, hp⟩ := h hl
  exact ⟨ts, next, position, hm, hv, hp .start ⟨rfl, fun _ => rfl⟩⟩

theorem stops_of_readTree {c d : Cursor} {t : Subtree} {u : Token}
    (h : Cursor.ReadTree limits 0 .sum [] c t d) (hu : d.token = some u) :
    ∃ ts next position, c.Meets ts next position ∧
      Stops ts next position (.trailingTokens (Token.describe u) d.position) := by
  obtain ⟨ts, hts, hb, hh⟩ := h
  obtain ⟨n, hn, -⟩ := hb.spelled
  obtain ⟨v, hv, he, hs⟩ := Place.scans_of_spelled hn .start rfl
  refine ⟨ts, _, _, .current hts, ⟨[], by simpa using ⟨t.expr, n, hn⟩⟩, _, hs, ?_, ?_⟩
  · refine Place.refuses_of_halts (Place.not_needsOperand he) hv.symm hh ?_ (fun _ => rfl)
      fun _ => ?_
    · intro hd
      cases hu.symm.trans hd
    · exact (Option.some_ne_none _).symm
  · rw [hu, Place.fault, Place.not_needsOperand he]
    rfl

theorem stops_of_error (h : parse source limits = .error err) (hl : err.isLimit = false) :
    ∃ (ts : List Token) (before after : List Item), Item.ofSource source = before ++ after ∧
      before.map (·.piece) = ts.map .token ∧
      Stops ts (after.head?.map (·.piece)) (Item.positionOf after source.utf8ByteSize) err := by
  cases hc : Cursor.ofSource source with
  | error e =>
    rw [parse, hc] at h
    cases h
    obtain ⟨rest, hr⟩ := Cursor.ofSource_eq_error hc
    exact ⟨[], [], _, hr, rfl, ⟨[.number 0], sentence_number ..⟩, .start, rfl, trivial, rfl⟩
  | ok c =>
    rw [parse_eq_expression hc] at h
    have hx := Cursor.expression_of_yields ((Cursor.reads limits).2.1 .sum 0 c (Nat.zero_le _))
    rw [h] at hx
    have hstops : ∃ ts next position, c.Meets ts next position ∧ Stops ts next position err := by
      rcases hx with hfail | ⟨t, d, u, hread, hu, rfl⟩
      · exact stops_of_fails hfail hl
      · exact stops_of_readTree hread hu
    obtain ⟨ts, next, position, hm, hstop⟩ := hstops
    obtain ⟨hstands, hfinish⟩ := Cursor.ofSource_eq_ok hc
    obtain ⟨before, after, ha, hb, rfl, rfl⟩ := hstands.meets hm
    rw [hfinish] at hstop
    exact ⟨ts, before, after, ha, hb, hstop⟩

/-- The source leaves the grammar at a position: the tokens `ts` in front of it go on to some
formula, and with `next`, which stands there, they do not. -/
structure Violation (source : String) (ts : List Token) (next : Option Piece) (position : Nat) :
    Prop where
  before : ((Item.ofSource source).filter (·.position < position)).map (·.piece) = ts.map .token
  here : ((Item.ofSource source).find? (·.position == position)).map (·.piece) = next
  viable : Viable ts
  token : ∀ t, next = some (.token t) → ¬ Viable (ts ++ [t])
  text : ∀ text, next = some (.bad text) → tokenize source = .error ⟨text, position⟩
  finish : next = none → position = source.utf8ByteSize
  /-- At the end something is still missing. -/
  missing : next = none → ¬ Sentence .sum ts ∧ (needsOperand ts ∨ isOpen ts)

theorem Place.refuses_token {p : Place} {next : Option Piece} (hp : Place.start.scan ts = some p)
    (hr : p.Refuses next) (t : Token) (ht : next = some (.token t)) : ¬ Viable (ts ++ [t]) := by
  subst ht
  exact Place.not_viable_of_step hp hr

theorem Place.refuses_none {p : Place} {next : Option Piece} (hp : Place.start.scan ts = some p)
    (hr : p.Refuses next) (hn : next = none) :
    ¬ Sentence .sum ts ∧ (Formula.needsOperand ts ∨ isOpen ts) := by
  subst hn
  refine ⟨Place.not_sentence_of_scan hp hr, ?_⟩
  rw [← Place.needsOperand_of_scan hp, ← Place.opened_ne_nil_iff hp]
  exact hr

/-- The error of a place is that of the tokens that lead to it. -/
theorem Place.fault_eq {p : Place} (hp : Place.start.scan ts = some p) (next : Option Piece)
    (position : Nat) :
    p.fault next position = Formula.fault (Formula.needsOperand ts) (isOpen ts) next position := by
  have hopen : (!p.opened.isEmpty) = isOpen ts := by
    rw [Bool.eq_iff_iff, ← Place.opened_ne_nil_iff hp]
    simp
  rw [Place.fault, hopen, Place.needsOperand_of_scan hp]

theorem tokenize_of_head {before after : List Item} {text : String}
    (ha : Item.ofSource source = before ++ after) (hb : before.map (·.piece) = ts.map .token)
    (ht : after.head?.map (·.piece) = some (.bad text)) (finish : Nat) :
    tokenize source = .error ⟨text, Item.positionOf after finish⟩ := by
  cases after with
  | nil => cases ht
  | cons item rest =>
    obtain ⟨piece, position⟩ := item
    cases ht
    exact tokenize_of_bad hb ha

/-- **Reading stops at the first violation, and names it by its place.** -/
theorem first_violation (h : parse source limits = .error err) (hl : err.isLimit = false) :
    ∃ ts next, Violation source ts next err.position ∧
      err = fault (needsOperand ts) (isOpen ts) next err.position := by
  obtain ⟨ts, before, after, ha, hb, hv, p, hp, hr, he⟩ := stops_of_error h hl
  obtain ⟨hrise, hin⟩ := Item.ofChars_positions 0 source.toList
  have hin : ∀ item ∈ Item.ofSource source, item.position < source.utf8ByteSize := by
    intro item hitem
    have := (hin item hitem).2
    rwa [Nat.zero_add, byteLength_toList] at this
  change (Item.ofSource source).Pairwise _ at hrise
  have hposition : err.position = Item.positionOf after source.utf8ByteSize := by
    rw [he]
    exact position_fault ..
  refine ⟨ts, after.head?.map (·.piece), ?_, ?_⟩
  · rw [hposition]
    rw [ha] at hrise hin
    refine ⟨?_, ?_, hv, Place.refuses_token hp hr, fun text ht => ?_, fun hn => ?_,
      Place.refuses_none hp hr⟩
    · rw [ha, Item.filter_before hrise hin, hb]
    · rw [ha, Item.find?_at hrise hin]
    · exact tokenize_of_head ha hb ht _
    · cases after with
      | nil => rfl
      | cons item rest => cases hn
  · rw [hposition, ← Place.fault_eq hp]
    exact he

/-- Two names in a row, inside a call. -/
theorem first_violation_in_call :
    parse "f(a b" = .error (.expectedClosing 4) ∧
      ∃ ts next, Violation "f(a b" ts next 4 ∧
        .expectedClosing 4 = fault (needsOperand ts) (isOpen ts) next 4 := by
  have h : parse "f(a b" = .error (.expectedClosing 4) := by cbv
  exact ⟨h, first_violation h rfl⟩

end Formula
