import Mathlib
import Formula.Proofs.Cutting

/-!
# Attempts to move

Whatever calls drive a cursor, its attempts to move meet the items of the source one after the
other, bad text among them.

* `attempt`: what the attempt of a given number meets.
* `Cursor.Call`, `Cursor.run`: calls in any order, whose errors are ignored.
* `Follows`: what a call yields by what its attempt meets.
* **`attempts_in_order`**: the law.
-/

namespace Formula

/-- Where a cursor is seen to stand: the token, which is `none` at the end, and the position. -/
def Cursor.standing (c : Cursor) : Option Token × Nat := (c.token, c.position)

/-- What the attempt of number `n` meets, counted from zero: a token or the end with its position,
or bad text. -/
def attempt (source : String) (n : Nat) : Except LexicalError (Option Token × Nat) :=
  match (Item.ofSource source)[n]? with
  | some ⟨.token token, position⟩ => .ok (some token, position)
  | some ⟨.bad text, position⟩ => .error ⟨text, position⟩
  | none => .ok (none, source.utf8ByteSize)

/-- A call whose attempt meets `met` yields `value` and stands where this says. If it is bad text,
then the call fails with it and stands at `kept`. -/
def Follows {α : Type} (met : Except LexicalError (Option Token × Nat)) (value : α)
    (kept : Option Token × Nat) (result : Except LexicalError α × Cursor) : Prop :=
  result.1 = met.map (fun _ => value) ∧ result.2.standing = met.toOption.getD kept

namespace Cursor

/-- The ways to move a cursor. -/
inductive Call
  | advance
  | take
  | next
deriving DecidableEq, Repr

/-- The attempt that a call makes, if it makes one, by what it meets, and the cursor behind it. -/
def Call.run (call : Call) (c : Cursor) :
    Option (Except LexicalError (Option Token × Nat)) × Cursor :=
  match call with
  | advance => (some (c.advance.1.map fun _ => c.advance.2.standing), c.advance.2)
  | take => (some (c.take.1.map fun _ => c.take.2.standing), c.take.2)
  | next => (c.next?.1.map fun outcome => outcome.map fun _ => c.next?.2.standing, c.next?.2)

/-- The attempts that calls make one after the other, and the cursor behind them. -/
def run (c : Cursor) : List Call → List (Except LexicalError (Option Token × Nat)) × Cursor
  | [] => ([], c)
  | call :: calls =>
    ((call.run c).1.toList ++ (run (call.run c).2 calls).1, (run (call.run c).2 calls).2)

/-- The next attempt is the one of number `n`. -/
structure Awaits (source : String) (c : Cursor) (n : Nat) : Prop where
  rest : c.rest = (Item.ofSource source).drop n
  finish : c.finish = source.utf8ByteSize

variable {source : String} {c : Cursor} {n : Nat}

/-! ## One call -/

theorem Awaits.advance (h : c.Awaits source n) :
    Follows (attempt source n) () c.standing c.advance ∧ c.advance.2.Awaits source (n + 1) := by
  obtain ⟨token, position, rest, finish⟩ := c
  obtain ⟨hrest, hfinish⟩ := h
  have hhead : (Item.ofSource source)[n]? = rest.head? := by
    rw [← List.head?_drop, ← hrest]
  have htail : rest.tail = (Item.ofSource source).drop (n + 1) := by
    rw [← List.tail_drop, ← hrest]
  rw [attempt, hhead]
  cases rest with
  | nil => exact ⟨⟨rfl, congrArg (Prod.mk none) hfinish⟩, htail, hfinish⟩
  | cons item rest =>
    obtain ⟨_ | _, _⟩ := item
    · exact ⟨⟨rfl, rfl⟩, htail, hfinish⟩
    · exact ⟨⟨rfl, rfl⟩, htail, hfinish⟩

theorem Awaits.take (h : c.Awaits source n) :
    Follows (attempt source n) c.token (none, c.position) c.take ∧
      c.take.2.Awaits source (n + 1) := by
  have hnone : Awaits source { c with token := none } n := ⟨h.rest, h.finish⟩
  obtain ⟨⟨houtcome, hstanding⟩, hnext⟩ := hnone.advance
  refine ⟨⟨?_, hstanding⟩, hnext⟩
  show Except.map _ (Cursor.advance { c with token := none }).1 = _
  rw [houtcome]
  cases attempt source n <;> rfl

theorem next?_eq_none (h : c.token = none) : c.next? = (none, c) := by
  rw [next?, h]

theorem Awaits.next? {t : Token} (h : c.Awaits source n) (ht : c.token = some t) :
    (∃ outcome, c.next?.1 = some outcome ∧
      Follows (attempt source n) t (none, c.position) (outcome, c.next?.2)) ∧
      c.next?.2.Awaits source (n + 1) := by
  obtain ⟨⟨houtcome, hstanding⟩, hnext⟩ := h.take
  have heq : c.next? = (some (c.take.1.map fun _ => t), c.take.2) := by
    rw [Cursor.next?, ht]
  rw [heq]
  refine ⟨⟨_, rfl, ?_, hstanding⟩, hnext⟩
  rw [houtcome]
  cases attempt source n <;> rfl

/-! ## Runs of calls -/

theorem map_of_follows {α : Type} {met : Except LexicalError (Option Token × Nat)} {value : α}
    {kept : Option Token × Nat} {result : Except LexicalError α × Cursor}
    (h : Follows met value kept result) : result.1.map (fun _ => result.2.standing) = met := by
  obtain ⟨houtcome, hstanding⟩ := h
  rw [houtcome, hstanding]
  cases met <;> rfl

/-- A call makes the next attempt, or none and does nothing. -/
theorem Awaits.call (h : c.Awaits source n) (call : Call) :
    (call.run c).1 = some (attempt source n) ∧ (call.run c).2.Awaits source (n + 1) ∨
      call.run c = (none, c) := by
  cases call with
  | advance =>
    obtain ⟨hf, hnext⟩ := h.advance
    exact .inl ⟨congrArg some (map_of_follows hf), hnext⟩
  | take =>
    obtain ⟨hf, hnext⟩ := h.take
    exact .inl ⟨congrArg some (map_of_follows hf), hnext⟩
  | next =>
    cases ht : c.token with
    | none =>
      right
      rw [Call.run, next?_eq_none ht]
      rfl
    | some t =>
      obtain ⟨⟨outcome, ho, hf⟩, hnext⟩ := h.next? ht
      refine .inl ⟨?_, hnext⟩
      rw [Call.run, ho]
      exact congrArg some (map_of_follows hf)

theorem Awaits.run (h : c.Awaits source n) (calls : List Call) :
    (c.run calls).1 = (List.range (c.run calls).1.length).map (fun k => attempt source (n + k)) ∧
      (c.run calls).2.Awaits source (n + (c.run calls).1.length) := by
  induction calls generalizing c n with
  | nil => exact ⟨rfl, h⟩
  | cons call calls ih =>
    rcases h.call call with ⟨hcall, hnext⟩ | hcall
    · obtain ⟨houtcomes, hlast⟩ := ih hnext
      rw [Cursor.run, hcall]
      generalize ((call.run c).2.run calls) = later at houtcomes hlast
      have hlength : (n + 1) + later.1.length = n + (later.1.length + 1) := by omega
      refine ⟨?_, hlength ▸ hlast⟩
      show attempt source n :: later.1 = (List.range (later.1.length + 1)).map _
      rw [List.range_succ_eq_map, List.map_cons, List.map_map]
      refine congrArg _ (houtcomes.trans (List.map_congr_left fun k _ => ?_))
      exact congrArg (attempt source) (by omega)
    · rw [Cursor.run, hcall]
      exact ih h

end Cursor

/-- Behind some attempts a first part of the source is cut into the items that they have met, and
the items ahead are those of what is left. -/
theorem Cursor.Awaits.exists_parts {c : Cursor} {source : String} {n : Nat}
    (h : c.Awaits source n) : ∃ front back, source.toList = front ++ back ∧
      Cuts 0 front ((Item.ofSource source).take n) back ∧
        c.rest = Item.ofChars (byteLength front) back := by
  obtain ⟨front, back, hs, hfront, hback, -⟩ := Formula.exists_parts source n
  exact ⟨front, back, hs, hfront, h.rest.trans (cuts_iff.1 hback)⟩

/-- **Attempts meet the items in order.** A source has one sequence of items. The first attempt
makes the cursor; whatever calls follow, the next attempt meets the next item, or the end once there
are none left, and the call yields what it meets. No item is passed over, met twice or divided: the
items met are what a first part of the source is cut into, and those ahead are of what is left. -/
theorem attempts_in_order (source : String) :
    (∀ items, Cuts 0 source.toList items [] ↔ items = Item.ofSource source) ∧
    (Cursor.ofSource source).map Cursor.standing = attempt source 0 ∧
    ∀ (c : Cursor), Cursor.ofSource source = .ok c → ∀ calls : List Cursor.Call,
      let d := (c.run calls).2
      let n := 1 + (c.run calls).1.length
      let met := attempt source n
      (c.run calls).1 =
          (List.range (c.run calls).1.length).map (fun k => attempt source (1 + k)) ∧
        (∃ front back, source.toList = front ++ back ∧
          Cuts 0 front ((Item.ofSource source).take n) back ∧
            d.rest = Item.ofChars (byteLength front) back) ∧
        Follows met () d.standing d.advance ∧
        Follows met d.token (none, d.position) d.take ∧
        (∀ t, d.token = some t → ∃ outcome, d.next?.1 = some outcome ∧
          Follows met t (none, d.position) (outcome, d.next?.2)) ∧
        (d.token = none → d.next? = (none, d)) := by
  have hbefore : (Cursor.before source).Awaits source 0 := ⟨rfl, rfl⟩
  obtain ⟨hfirst, hnext⟩ := hbefore.advance
  have hsource : Cursor.ofSource source =
      (Cursor.before source).advance.1.map fun _ => (Cursor.before source).advance.2 := rfl
  refine ⟨fun items => cuts_iff, ?_, fun c hc calls => ?_⟩
  · rw [← Cursor.map_of_follows hfirst, hsource]
    cases (Cursor.before source).advance.1 <;> rfl
  · have hawaits : c.Awaits source 1 := by
      rw [hsource] at hc
      cases ho : (Cursor.before source).advance.1 with
      | error e =>
        rw [ho] at hc
        cases hc
      | ok =>
        rw [ho] at hc
        cases hc
        exact hnext
    obtain ⟨houtcomes, hlast⟩ := hawaits.run calls
    exact ⟨houtcomes, hlast.exists_parts, hlast.advance.1, hlast.take.1,
      fun t ht => (hlast.next? ht).1, Cursor.next?_eq_none⟩

/-- Taking the first token fails at the bad text. The token is then gone and `next` makes no
attempt, so the attempt after it is the second one. -/
theorem attempts_in_order_past_bad_text :
    let c : Cursor := ⟨some (.name "a"), 0, [⟨.bad "@", 1⟩, ⟨.token (.name "b"), 2⟩], 3⟩
    let calls : List Cursor.Call := [.take, .next, .advance]
    Cursor.ofSource "a@b" = .ok c ∧
      (c.run calls).1 = [.error ⟨"@", 1⟩, .ok (some (.name "b"), 2)] ∧
      (c.run calls).2.take.1 = .ok (some (.name "b")) := by
  intro c calls
  have hc : Cursor.ofSource "a@b" = .ok c := by cbv
  have hattempts : attempt "a@b" 1 = .error ⟨"@", 1⟩ ∧ attempt "a@b" 2 = .ok (some (.name "b"), 2) ∧
      attempt "a@b" 3 = .ok (none, 3) := by
    refine ⟨?_, ?_, ?_⟩ <;> cbv
  obtain ⟨houtcomes, -, -, htake, -⟩ := (attempts_in_order "a@b").2.2 c hc calls
  refine ⟨hc, houtcomes.trans ?_, htake.1.trans ?_⟩
  · show [attempt "a@b" 1, attempt "a@b" 2] = _
    rw [hattempts.1, hattempts.2.1]
  · show (attempt "a@b" 3).map _ = _
    rw [hattempts.2.2]
    rfl

end Formula
