import Mathlib
import Formula.Proofs.Attempts
import Formula.Proofs.Positions
import Formula.Proofs.Resumption

/-!
# The end of a source

A cursor without a token is at the end of its source, or a call has taken its token and then failed.
In the second case it is in front of the bad text, and a move leads on behind that.

* `Cursor.Ended`: at the end, however often the cursor is moved on.
* `Cursor.Settled`: a cursor behind an attempt, by what that has met.
* `Cursor.Settled.call`: each call keeps this, `Cursor.Settled.run`: and so does a run.
* **`ended_iff`**: a cursor without a token has ended exactly if the last attempt has not failed.
-/

namespace Formula

/-! ## Attempts -/

section Attempts

variable {source : String} {n : Nat}

theorem getElem?_of_attempt_error {e : LexicalError} (h : attempt source n = .error e) :
    (Item.ofSource source)[n]? = some ⟨.bad e.text, e.position⟩ := by
  unfold attempt at h
  split at h
  next => cases h
  next text position hitem =>
    cases h
    exact hitem
  next => cases h

theorem length_le_of_attempt_none {position : Nat} (h : attempt source n = .ok (none, position)) :
    (Item.ofSource source).length ≤ n ∧ position = source.utf8ByteSize := by
  unfold attempt at h
  split at h
  next => cases h
  next => cases h
  next hitem =>
    cases h
    exact ⟨List.getElem?_eq_none_iff.1 hitem, rfl⟩

end Attempts

namespace Cursor

/-- The cursor is at the end of the source, and stays there however often it is moved on. -/
def Ended (source : String) (c : Cursor) : Prop :=
  ∀ k, ∃ d, c.advanced k = .ok d ∧ d.standing = (none, source.utf8ByteSize)

/-- What an attempt leaves behind: the cursor stands on what it has met, or in front of bad text. -/
def Settled (c : Cursor) : Except LexicalError (Option Token × Nat) → Prop
  | .ok standing => c.standing = standing
  | .error e => c.position < e.position

variable {source : String} {c d : Cursor} {n : Nat}

/-! ## The end -/

theorem Stands.ended (h : c.Stands []) (hfinish : c.finish = source.utf8ByteSize) :
    c.Ended source := by
  intro k
  induction k generalizing c with
  | zero =>
    refine ⟨c, rfl, ?_⟩
    rw [standing, h.1, h.2.1, hfinish]
  | succ k ih =>
    have hmove : c.advance = (.ok (), c) := advance_of_stands (h.rest ▸ h) rfl
    obtain ⟨d, hd, hstanding⟩ := ih h hfinish
    refine ⟨d, ?_, hstanding⟩
    rw [Cursor.advanced, hmove]
    exact hd

theorem Ended.standing (h : c.Ended source) : c.standing = (none, source.utf8ByteSize) := by
  obtain ⟨d, hd, hstanding⟩ := h 0
  cases hd
  exact hstanding

/-! ## One attempt -/

/-- Bad text stands behind what the attempts before it have met. -/
theorem Settled.lt_position {e : LexicalError} (h : c.Settled (attempt source n))
    (he : attempt source (n + 1) = .error e) : c.position < e.position := by
  obtain ⟨hlt, hitem⟩ := List.getElem?_eq_some_iff.1 (getElem?_of_attempt_error he)
  have hrise : (Item.ofSource source)[n].position < e.position := by
    have := List.pairwise_iff_getElem.1 (Item.positions_ofSource source).1 n (n + 1)
      (Nat.lt_of_succ_lt hlt) hlt (Nat.lt_succ_self n)
    rwa [hitem] at this
  -- the cursor stands on item `n`, or in front of it if that is bad text
  rw [attempt, List.getElem?_eq_getElem (Nat.lt_of_succ_lt hlt)] at h
  generalize (Item.ofSource source)[n] = item at h hrise
  obtain ⟨_ | _, position⟩ := item
  · obtain rfl : c.position = position := congrArg Prod.snd h
    exact hrise
  · exact Nat.lt_trans h hrise

/-- A call settles the cursor by the attempt that it makes, as what it keeps is in front of the bad
text. -/
theorem settled_of_follows {α : Type} {met : Except LexicalError (Option Token × Nat)} {value : α}
    {kept : Option Token × Nat} {result : Except LexicalError α × Cursor}
    (h : Follows met value kept result) (hkept : ∀ e, met = .error e → kept.2 < e.position) :
    result.2.Settled met := by
  obtain ⟨-, hstanding⟩ := h
  cases met with
  | ok standing => exact hstanding
  | error e =>
    have hposition : result.2.position = kept.2 := congrArg Prod.snd hstanding
    rw [Settled, hposition]
    exact hkept e rfl

/-! ## Runs of calls -/

theorem Settled.call (h : c.Settled (attempt source n)) (hn : c.Awaits source (n + 1))
    (call : Call) (hcall : (call.run c).1 ≠ none) :
    (call.run c).2.Settled (attempt source (n + 1)) := by
  cases call with
  | advance => exact settled_of_follows hn.advance.1 fun _ => h.lt_position
  | take => exact settled_of_follows hn.take.1 fun _ => h.lt_position
  | next =>
    cases ht : c.token with
    | none =>
      rw [Call.run, next?_eq_none ht] at hcall
      exact absurd rfl hcall
    | some t =>
      obtain ⟨⟨outcome, -, hf⟩, -⟩ := hn.next? ht
      exact settled_of_follows hf fun _ => h.lt_position

theorem Settled.run (h : c.Settled (attempt source n)) (hn : c.Awaits source (n + 1))
    (calls : List Call) :
    (c.run calls).2.Settled (attempt source (n + (c.run calls).1.length)) := by
  induction calls generalizing c n with
  | nil => exact h
  | cons call calls ih =>
    rcases hn.call call with ⟨hcall, hnext⟩ | hcall
    · have hsettled := h.call hn call (by simp [hcall])
      have hlast := ih hsettled hnext
      rw [Cursor.run, hcall]
      have hlength : n + (((call.run c).2.run calls).1.length + 1) =
          n + 1 + ((call.run c).2.run calls).1.length := by omega
      exact hlength ▸ hlast
    · rw [Cursor.run, hcall]
      exact ih h hn

/-- The last attempt of a run, or the one before it if the run makes none. -/
theorem Awaits.getLast?_run (h : c.Awaits source (n + 1)) (calls : List Call) :
    (c.run calls).1.getLast?.getD (attempt source n) =
      attempt source (n + (c.run calls).1.length) := by
  rw [(h.run calls).1, List.length_map, List.length_range]
  cases (c.run calls).1.length with
  | zero => rfl
  | succ m =>
    rw [List.range_succ, List.map_append, List.map_singleton, List.getLast?_concat,
      Option.getD_some, Nat.add_assoc, Nat.add_comm 1 m]

theorem Settled.ended {standing : Option Token × Nat} (h : c.Settled (attempt source n))
    (hn : c.Awaits source (n + 1)) (hmet : attempt source n = .ok standing)
    (ht : c.token = none) : c.Ended source := by
  rw [hmet] at h
  obtain ⟨token, position⟩ := standing
  obtain ⟨htoken, hposition⟩ : c.token = token ∧ c.position = position := Prod.mk.inj h
  rw [← htoken, ht] at hmet
  obtain ⟨hlength, hsize⟩ := length_le_of_attempt_none hmet
  refine Stands.ended ⟨ht, ?_, ?_⟩ hn.finish
  · rw [hposition, hsize, hn.finish]
  · rw [hn.rest]
    exact List.drop_eq_nil_of_le (Nat.le_succ_of_le hlength)

theorem attempt_zero (hc : ofSource source = .ok c) :
    attempt source 0 = .ok c.standing ∧ c.Awaits source 1 := by
  have hbefore : (before source).Awaits source 0 := ⟨rfl, rfl⟩
  obtain ⟨hf, hnext⟩ := hbefore.advance
  rw [advance_of_ofSource hc] at hf hnext
  exact ⟨(map_of_follows hf).symm, hnext⟩

/-- The cursor of a source is settled by the last attempt, whatever calls have been made. -/
theorem exists_settled (hc : ofSource source = .ok c) (calls : List Call) :
    ∃ n, (c.run calls).1.getLast?.getD (.ok c.standing) = attempt source n ∧
      (c.run calls).2.Settled (attempt source n) ∧ (c.run calls).2.Awaits source (n + 1) := by
  obtain ⟨hfirst, hawaits⟩ := attempt_zero hc
  have hsettled : c.Settled (attempt source 0) := by
    rw [hfirst]
    rfl
  refine ⟨_, ?_, hsettled.run hawaits calls, ?_⟩
  · rw [← hfirst]
    exact hawaits.getLast?_run calls
  · rw [Nat.add_right_comm]
    exact (hawaits.run calls).2

end Cursor

theorem exists_ok_of_last {ε α : Type} {last : Option (Except ε α)}
    (h : ∀ e, last ≠ some (.error e)) (first : α) : ∃ met, last.getD (.ok first) = .ok met := by
  cases last with
  | none => exact ⟨first, rfl⟩
  | some outcome =>
    cases outcome with
    | ok met => exact ⟨met, rfl⟩
    | error e => exact absurd rfl (h e)

/-- **A cursor without a token is at the end, or a call that has taken its token has failed.** After
any calls, whose errors are ignored, the cursor has ended exactly if it has no token and the last
attempt has not failed. If that has failed, then the cursor stands in front of the bad text. -/
theorem ended_iff {source : String} {c : Cursor} (hc : Cursor.ofSource source = .ok c)
    (calls : List Cursor.Call) :
    let d := (c.run calls).2
    let last := (c.run calls).1.getLast?
    (d.Ended source ↔ d.token = none ∧ ∀ e, last ≠ some (.error e)) ∧
      ∀ e, last = some (.error e) → d.position < e.position ∧ e.position < source.utf8ByteSize := by
  intro d last
  obtain ⟨n, hlast, hsettled, hawaits⟩ : ∃ n, last.getD (.ok c.standing) = attempt source n ∧
    d.Settled (attempt source n) ∧ d.Awaits source (n + 1) := Cursor.exists_settled hc calls
  have hfailed : ∀ e, last = some (.error e) →
      d.position < e.position ∧ e.position < source.utf8ByteSize := by
    intro e he
    have hmet : attempt source n = .error e := by rw [← hlast, he, Option.getD_some]
    rw [hmet] at hsettled
    have hbad := getElem?_of_attempt_error hmet
    exact ⟨hsettled, (Item.positions_ofSource source).2 _ (List.mem_of_getElem? hbad)⟩
  refine ⟨⟨fun hended => ?_, fun ⟨ht, hok⟩ => ?_⟩, hfailed⟩
  · obtain ⟨htoken, hposition⟩ := Prod.mk.inj hended.standing
    refine ⟨htoken, fun e he => ?_⟩
    obtain ⟨hbehind, hinside⟩ := hfailed e he
    exact absurd hposition (Nat.ne_of_lt (Nat.lt_trans hbehind hinside))
  · obtain ⟨standing, hmet⟩ := exists_ok_of_last hok c.standing
    exact hsettled.ended hawaits (hlast.symm.trans hmet) ht

/-- Behind bad text that a move has met with the token kept, the calls lead to the end. -/
theorem ended_iff_past_bad_text :
    let c : Cursor := ⟨some (.name "a"), 0, [⟨.bad "@", 1⟩, ⟨.token (.name "b"), 2⟩], 3⟩
    let calls : List Cursor.Call := [.advance, .take, .next]
    Cursor.ofSource "a@b" = .ok c ∧
      (c.run calls).1 = [.error ⟨"@", 1⟩, .ok (some (.name "b"), 2), .ok (none, 3)] ∧
      (c.run calls).2.Ended "a@b" := by
  intro c calls
  have hc : Cursor.ofSource "a@b" = .ok c := by cbv
  have hlast : ∀ e, (c.run calls).1.getLast? ≠ some (.error e) := by
    intro e he
    cases he
  exact ⟨hc, rfl, (ended_iff hc calls).1.2 ⟨rfl, hlast⟩⟩

/-- Taking the first token fails at the bad text and leaves no token, though the end is not reached:
the cursor is where that token has been, and moving on leads to the second name. -/
theorem ended_fails :
    ∃ c, Cursor.ofSource "a@b" = .ok c ∧
      (c.run [.take]).2.standing = (none, 0) ∧
      (c.run [.take, .advance]).2.standing = (some (.name "b"), 2) ∧
      ¬ (c.run [.take]).2.Ended "a@b" := by
  refine ⟨⟨some (.name "a"), 0, [⟨.bad "@", 1⟩, ⟨.token (.name "b"), 2⟩], 3⟩, by cbv, rfl, rfl,
    fun h => ?_⟩
  cases h.standing

end Formula
