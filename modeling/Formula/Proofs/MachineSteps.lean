import Mathlib.Tactic.SplitIfs
import Formula.Machine
import Formula.Proofs.Equations

/-!
# Steps of a machine

* `Machine.Orderly`: the record of a machine. From one nested call or loop round to the next less is
  ahead, and a nested call stands right behind a move.
* `Machine.Passed`: the machine has moved on from all of them.
* `Machine.Completes`: a run is not stopped and comes to what a reading comes to, in good order.
  Each way of building a run has one rule.
-/

namespace Formula

/-- The cursor on which a nested call or a round of a loop begins. -/
def Event.start? : Event → Option Cursor
  | .moved _ => none
  | .nested c => some c
  | .round c => some c

namespace Machine

/-- Where nested calls and rounds of loops have begun, the last one first. -/
def starts (m : Machine) : List Cursor := m.log.filterMap Event.start?

/-- The record is in good order. -/
structure Orderly (m : Machine) : Prop where
  /-- From one nested call or loop round to the next less is ahead. -/
  falls : m.starts.Pairwise (·.unread < ·.unread)
  /-- A nested call is on the cursor that the move right before it has led to. -/
  moved : ∀ later c earlier, m.log = later ++ .nested c :: earlier →
    earlier.head? = some (.moved c)
  /-- The machine is not behind any of them. -/
  reached : ∀ c ∈ m.starts, m.cursor.unread ≤ c.unread

/-- The machine has moved on from all nested calls and loop rounds on record. -/
def Passed (m : Machine) : Prop := ∀ c ∈ m.starts, m.cursor.unread < c.unread

/-- The run `x` is not stopped on `m`. It comes to the outcome and to the cursor of `r`, with the
depth as it was and with the record in good order, and a success leaves all that is on record
behind. -/
def Completes {α : Type} (x : Run α) (m : Machine) (r : Except ParseError α × Cursor) : Prop :=
  ∃ m', x m = .ok (r.1, m') ∧ m'.cursor = r.2 ∧ m'.depth = m.depth ∧ m'.Orderly ∧
    ∀ a, r.1 = .ok a → m'.Passed

/-- The machine `m'` is where a successful move from `m` leads. -/
structure Advanced (m m' : Machine) : Prop where
  unread : m'.cursor.unread < m.cursor.unread
  depth : m'.depth = m.depth
  orderly : m'.Orderly
  passed : m'.Passed
  last : m'.log.head? = some (.moved m'.cursor)

variable {capacity n : Nat} {limits : Limits} {m m' : Machine} {c : Cursor} {α β : Type}
  {x : Run α} {f : α → Run β} {r : Except ParseError α × Cursor}
  {q : Except ParseError β × Cursor}

/-! ## The record -/

theorem orderly_start (c : Cursor) (depth : Nat) : Orderly ⟨c, depth, []⟩ where
  falls := .nil
  moved later c earlier h := absurd h (by simp)
  reached := List.forall_mem_nil _

/-- A move puts itself on record, and leaves the rest of the record behind. -/
theorem Orderly.move {d : Cursor} (h : m.Orderly) (hd : d.unread < m.cursor.unread) :
    Orderly { m with cursor := d, log := .moved d :: m.log } ∧
      Passed { m with cursor := d, log := .moved d :: m.log } := by
  have hpassed : Passed { m with cursor := d, log := .moved d :: m.log } :=
    fun c hc => Nat.lt_of_lt_of_le hd (h.reached c hc)
  refine ⟨⟨h.falls, fun later c earlier hlog => ?_, fun c hc => Nat.le_of_lt (hpassed c hc)⟩,
    hpassed⟩
  cases later with
  | nil => cases (List.cons.inj hlog).1
  | cons event later => exact h.moved later c earlier (List.cons.inj hlog).2

theorem Orderly.stay {d : Cursor} (h : m.Orderly) (hd : d.unread ≤ m.cursor.unread) :
    Orderly { m with cursor := d } :=
  ⟨h.falls, h.moved, fun c hc => Nat.le_trans hd (h.reached c hc)⟩

/-- A nested call or a round begins where all that is on record is left behind. -/
theorem Orderly.note (h : m.Orderly) (hpassed : m.Passed) {event : Cursor → Event}
    (hstart : (event m.cursor).start? = some m.cursor)
    (hlast : ∀ c, event m.cursor = .nested c → m.log.head? = some (.moved c)) :
    Orderly { m with log := event m.cursor :: m.log } := by
  have hstarts : starts { m with log := event m.cursor :: m.log } = m.cursor :: m.starts :=
    List.filterMap_cons_some hstart
  refine ⟨?_, fun later c earlier hlog => ?_, ?_⟩
  · rw [hstarts]
    exact List.pairwise_cons.2 ⟨hpassed, h.falls⟩
  · cases later with
    | nil =>
      obtain ⟨hevent, rfl⟩ := List.cons.inj hlog
      exact hlast c hevent
    | cons e later => exact h.moved later c earlier (List.cons.inj hlog).2
  · rw [hstarts]
    exact List.forall_mem_cons.2 ⟨Nat.le_refl _, h.reached⟩

/-! ## Single steps -/

theorem Completes.congr {y : Run α} (h : Completes y m r) (hxy : x m = y m) : Completes x m r := by
  rwa [Completes, hxy]

theorem completes_ok (h : m.Orderly) (hpassed : m.Passed) (a : α) :
    Completes (pure a) m (.ok a, m.cursor) :=
  ⟨m, rfl, rfl, rfl, h, fun _ _ => hpassed⟩

theorem completes_fail (h : m.Orderly) (e : ParseError) :
    Completes (fail e : Run α) m (.error e, m.cursor) :=
  ⟨m, rfl, rfl, rfl, h, nofun⟩

theorem completes_accept (h : m.Orderly) (hpassed : m.Passed) (e : Expr) (height : Nat) :
    Completes (accept limits e height) m
      (Reading.stay m.cursor (limits.accept m.cursor.position e height)).1 :=
  ⟨m, rfl, rfl, rfl, h, fun _ _ => hpassed⟩

theorem completes_next {f : Nat → Run β} (hn : n < capacity) (h : Completes (f (n + 1)) m q) :
    Completes (next capacity n >>= f) m q := by
  rw [next, if_pos hn]
  exact h

theorem completes_round {f : Unit → Run β} (h : m.Orderly) (hpassed : m.Passed)
    (hf : ∀ log, Orderly { m with log } → Completes (f ()) { m with log } q) :
    Completes (note .round >>= f) m q :=
  hf _ (h.note hpassed rfl (by simp))

theorem advance_cases (h : m.Orderly) (ht : m.cursor.token.isSome) :
    (∃ m', advance m = .ok (.ok (), m') ∧ m.cursor.advance = (.ok (), m'.cursor) ∧
      m.Advanced m') ∨
    ∃ e m', advance m = .ok (.error (.lexical e), m') ∧
      m.cursor.advance = (.error e, m'.cursor) ∧ m'.depth = m.depth ∧ m'.Orderly := by
  have hlt := Cursor.unread_advance_lt ht
  unfold advance
  cases hmove : m.cursor.advance with
  | mk outcome d =>
    rw [hmove] at hlt
    cases outcome with
    | ok =>
      obtain ⟨horderly, hpassed⟩ := h.move hlt
      exact .inl ⟨_, rfl, rfl, hlt, rfl, horderly, hpassed, rfl⟩
    | error e => exact .inr ⟨e, _, rfl, rfl, rfl, h.stay (Nat.le_of_lt hlt)⟩

/-! ## Steps one after the other -/

theorem bind_eq {o : Except Stop (Except ParseError α × Machine)} (h : x m = o) :
    (x >>= f) m = Run.resume f o :=
  congrArg (Run.resume f) h

theorem here_bind (f : Cursor → Run β) : (here >>= f) m = f m.cursor m := rfl

/-- How steps are grouped does not matter. -/
instance : LawfulMonad Run :=
  .mk' Run
    (fun x => funext fun m => by
      rcases hx : x m with s | ⟨e | a, m'⟩ <;> exact bind_eq hx)
    (fun _ _ => rfl)
    (fun x f g => funext fun m => by
      rcases hx : x m with s | ⟨e | a, m'⟩ <;> rw [bind_eq (bind_eq hx), bind_eq hx] <;> rfl)

theorem outcomeOf_of_ok {outcome : Except ParseError α} (h : x m = .ok (outcome, m')) :
    outcomeOf x m = .ok (.ok outcome, m') := by
  rw [outcomeOf, h]
  rfl

/-- What follows a success goes on from where that has led. -/
theorem Completes.bind {r : Reading c α} {k : α → (d : Cursor) → d.unread ≤ c.unread → Reading d β}
    (h : Completes x m r.1)
    (hf : ∀ a (m' : Machine) hd, r.1 = (.ok a, m'.cursor) → m'.depth = m.depth → m'.Orderly →
      m'.Passed → Completes (f a) m' (k a m'.cursor hd).1) :
    Completes (x >>= f) m (r.andThen k).1 := by
  obtain ⟨⟨outcome, d⟩, hd⟩ := r
  obtain ⟨m', hx, rfl, hdepth, horderly, hpassed⟩ := h
  cases outcome with
  | error e => exact ⟨m', bind_eq hx, rfl, hdepth, horderly, nofun⟩
  | ok a =>
    obtain ⟨m'', hrun, hcursor, hdepth', hrest⟩ := hf a m' hd rfl hdepth horderly (hpassed a rfl)
    exact ⟨m'', (bind_eq hx).trans hrun, hcursor, hdepth'.trans hdepth, hrest⟩

theorem completes_past {f : Unit → Run β} {ht : m.cursor.token.isSome}
    {k : (d : Cursor) → d.unread < m.cursor.unread → Reading d β} (h : m.Orderly)
    (hf : ∀ m' (hm : m.Advanced m'), Completes (f ()) m' (k m'.cursor hm.unread).1) :
    Completes (advance >>= f) m (m.cursor.past ht k).1 := by
  rcases advance_cases h ht with ⟨m', hx, hmove, hm⟩ | ⟨e, m', hx, hmove, hdepth, horderly⟩
  · obtain ⟨m'', hrun, hcursor, hdepth, hrest⟩ := hf m' hm
    rw [Cursor.past_of_ok hmove]
    exact ⟨m'', (bind_eq hx).trans hrun, hcursor, hdepth.trans hm.depth, hrest⟩
  · rw [Cursor.past_of_error hmove]
    exact ⟨m', bind_eq hx, rfl, hdepth, horderly, nofun⟩

theorem completes_closing (h : m.Orderly) : Completes closing m m.cursor.closing.1 := by
  show Completes (if m.cursor.token = some .closeParen then advance else _) m _
  unfold Cursor.closing
  split_ifs with ht
  · rw [← bind_pure_unit (x := advance)]
    exact completes_past h fun m' hm => completes_ok hm.orderly hm.passed ()
  · exact completes_fail h _

/-- A production runs one level deeper, if the limits have room for it. No sum is too great and no
difference too small then. -/
theorem completes_nested {k : Nat → Reading m.cursor α} (h : m.Orderly) (hpassed : m.Passed)
    (hlast : m.log.head? = some (.moved m.cursor)) (hcapacity : limits.depth ≤ capacity)
    (hx : ∀ m' : Machine, m'.cursor = m.cursor → m'.depth = m.depth + 1 → m'.Orderly →
      Completes x m' (k (m.depth + 1)).1) :
    Completes (nested capacity limits x) m (m.cursor.nested limits m.depth k).1 := by
  have hnote : Orderly { m with log := .nested m.cursor :: m.log } :=
    h.note hpassed rfl fun c hc => by
      cases hc
      exact hlast
  show Completes (if limits.depth ≤ m.depth then _ else _)
    { m with log := .nested m.cursor :: m.log } _
  unfold Cursor.nested
  split_ifs with hroom
  · exact completes_fail hnote _
  · have hroom : m.depth < capacity := by omega
    obtain ⟨m', hrun, hcursor, hdepth, horderly, hpassed⟩ :=
      hx { m with depth := m.depth + 1, log := .nested m.cursor :: m.log } rfl rfl
        ⟨hnote.falls, hnote.moved, hnote.reached⟩
    refine completes_next hroom ⟨{ m' with depth := m.depth }, ?_, hcursor, rfl,
      ⟨horderly.falls, horderly.moved, horderly.reached⟩, hpassed⟩
    show (outcomeOf x >>= _) _ = _
    rw [bind_eq (outcomeOf_of_ok hrun)]
    show (previous m'.depth >>= _) m' = _
    rw [hdepth]
    rfl

end Machine

end Formula
