/-
  Cursors behind those that show their next item, taken out again. An item that is held back at that
  time is neither handed out nor read again. There is one exactly if the last call was a look that
  showed it (`peeked_after_iff`).

  * `unwrapped_exact`: what is handed out before and read after, against what would be delivered.
  * `unwrapped_skips_shown`: one look is enough for the two to differ.
-/
import Mathlib
import TripleIndex.Proofs.Cursor.Peekable

namespace TripleIndex

namespace Cursor

variable {σ ι ε : Type} [Cursor σ ι ε]

theorem skip_add (s : σ) (n m : Nat) : skip (n + m) s = skip m (skip n s) := by
  unfold skip
  rw [Nat.add_comm]
  exact Function.iterate_add_apply _ m n s

/-- Reads that go on from others deliver what comes behind. -/
theorem delivered_add (s : σ) (n m : Nat) :
    delivered s (n + m) = delivered s n ++ delivered (skip n s) m := by
  induction m with
  | zero => exact (List.append_nil _).symm
  | succ m ih =>
    rw [← Nat.add_assoc, delivered_succ, delivered_succ, ih, skip_add, List.append_assoc]

end Cursor

open Cursor (skip delivered)

namespace Peekable

variable {σ ι ε : Type} [Cursor σ ι ε]

/-- What is shown is held back, and nothing else is after a look. -/
theorem peeked_peek_iff (p : Peekable σ ι) (i : ι) :
    p.peek.2.peeked = some i ↔ p.peek.1 = .ok (some i) := by
  refine ⟨fun held => ?_, peeked_of_peek⟩
  obtain ⟨inner, peeked⟩ := p
  cases peeked with
  | some j => exact congrArg Except.ok held
  | none =>
    rw [peek] at held ⊢
    rcases found : Cursor.next inner with ⟨e | item, last⟩
    · simp [found] at held
    · simpa [found] using held

/-- Nothing is held back after an item was asked for. -/
theorem peeked_next (p : Peekable σ ι) : p.next.2.peeked = none := by
  obtain ⟨inner, peeked⟩ := p
  cases peeked <;> rfl

/-- The last call is a look that shows the item. -/
def ShownLast (s : σ) (calls : List PeekableCall) (i : ι) : Prop :=
  ∃ earlier, calls = earlier ++ [.peek]
    ∧ ((ofCursor s : Peekable σ ι).after earlier).peek.1 = .ok (some i)

theorem peeked_after_iff (s : σ) (calls : List PeekableCall) (i : ι) :
    ((ofCursor s : Peekable σ ι).after calls).peeked = some i ↔ ShownLast s calls i := by
  rcases List.eq_nil_or_concat' calls with rfl | ⟨earlier, call, rfl⟩
  · refine iff_of_false nofun ?_
    rintro ⟨earlier, none, _⟩
    exact List.append_ne_nil_of_right_ne_nil earlier (List.cons_ne_nil _ _) none.symm
  · rw [after_append]
    cases call with
    | peek =>
      refine (peeked_peek_iff _ i).trans ⟨fun shown => ⟨earlier, rfl, shown⟩, ?_⟩
      rintro ⟨others, same, shown⟩
      rwa [← (List.append_inj' same rfl).1] at shown
    | next =>
      have held := peeked_next ((ofCursor s : Peekable σ ι).after earlier)
      refine iff_of_false (fun some => ?_) ?_
      · exact Option.some_ne_none i (some.symm.trans held)
      · rintro ⟨others, same, _⟩
        cases (List.append_inj' same rfl).2

/-- The cursor behind is taken out after any calls, and read any number of times. What was handed out
before, and what is read then, is what would be delivered without looking ahead, unless the last call
was a look that showed an item. In that case this one item is missing, between the two. -/
theorem unwrapped_exact (s : σ) (calls : List PeekableCall) (m : Nat) :
    let start : Peekable σ ι := ofCursor s
    let taken := start.taken calls
    let later := delivered (start.after calls).intoInner m
    let whole := delivered s (reads s calls + m)
    (taken ++ later = whole ↔ ∀ i, ¬ ShownLast s calls i)
    ∧ ∀ i, ShownLast s calls i → whole = taken ++ i :: later := by
  intro start taken later whole
  have parts : whole = taken ++ ((start.after calls).peeked.toList ++ later) := by
    change delivered s (reads s calls + m) = _
    rw [Cursor.delivered_add, ← taken_append_peeked, ← inner_after, List.append_assoc]
    rfl
  simp only [← peeked_after_iff]
  change (taken ++ later = whole ↔ ∀ i, (start.after calls).peeked ≠ some i)
    ∧ ∀ i, (start.after calls).peeked = some i → _
  rw [parts]
  cases held : (start.after calls).peeked with
  | none => exact ⟨iff_of_true rfl nofun, nofun⟩
  | some i =>
    refine ⟨iff_of_false (fun same => ?_) fun none => none i rfl, fun j same => ?_⟩
    · have length := congrArg List.length same
      simp at length
    · rw [Option.some.inj same]
      rfl

/-- A script that finds nothing once: a look finds nothing, the next one shows the second item, and
the read behind it goes on with the third. -/
theorem unwrapped_exact_second :
    let s : Scripted Nat := Scripted.ofItems [some 1, none, some 2, some 3] none false
    let start : Peekable (Scripted Nat) Nat := ofCursor s
    let calls : List PeekableCall := [.next, .peek, .peek]
    ShownLast s calls 2
      ∧ delivered s 4 = start.taken calls ++ 2 :: delivered (start.after calls).intoInner 1
      ∧ start.taken calls ++ delivered (start.after calls).intoInner 1 = [1, 3] := by
  intro s start calls
  have shown : ShownLast s calls 2 := ⟨[.next, .peek], rfl, rfl⟩
  exact ⟨shown, (unwrapped_exact s calls 1).2 2 shown, rfl⟩

/-- After one look, what is read from the cursor taken out is not what it delivers at first, for any
number of its reads. -/
theorem unwrapped_skips_shown :
    let s : Scripted String := Scripted.ofItems [some "a", some "b"] none false
    let start : Peekable (Scripted String) String := ofCursor s
    ∀ n, start.taken [.peek] ++ delivered (start.after [.peek]).intoInner 1 ≠ delivered s n := by
  intro s start n same
  have read : start.taken [.peek] ++ delivered (start.after [.peek]).intoInner 1 = ["b"] := rfl
  rw [read] at same
  cases n with
  | zero => cases same
  | succ n =>
    have first : ["a"] <+: delivered s (n + 1) :=
      Cursor.delivered_isPrefix s (Nat.succ_le_succ (Nat.zero_le n))
    rw [← same] at first
    exact absurd first (by decide)

end Peekable

end TripleIndex
