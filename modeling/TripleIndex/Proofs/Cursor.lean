/-
  What cursors hand out when they are read to the end (`Cursor.Yields`), which is what draining them
  collects (`Cursor.Yields.drain_eq`, `Cursor.yields_of_drain`).

  * `Statements.yields`: a cursor of statements hands out those of its rows that it accepts.
  * `Peekable.peek_of_cons`: looking at the next item takes nothing away.
-/
import Mathlib
import TripleIndex.Cursor.Peekable
import TripleIndex.Cursor.Scripted
import TripleIndex.Cursor.Statements
import TripleIndex.Store.Scanner

namespace TripleIndex

namespace Cursor

variable {σ ι ε : Type} [Cursor σ ι ε]

/-- Reads of the cursor succeed, hand out the items one by one, and then find nothing. -/
inductive Yields : σ → List ι → Prop
  | done {s t : σ} : next s = (.ok none, t) → Yields s []
  | item {s t : σ} {i : ι} {items : List ι} : next s = (.ok (some i), t) → Yields t items →
      Yields s (i :: items)

/-- Draining collects all items if the limit allows for one more read. -/
theorem Yields.drain_eq {s : σ} {items : List ι} (h : Yields s items) {limit : Nat}
    (enough : items.length < limit) : ∃ s', drain limit s = (items, .exhausted, s') := by
  induction h generalizing limit with
  | @done s s' found =>
    obtain ⟨limit, rfl⟩ := Nat.exists_eq_succ_of_ne_zero (Nat.ne_of_gt enough)
    exact ⟨s', by rw [drain, found]⟩
  | @item s s' i items found _ ih =>
    obtain ⟨limit, rfl⟩ := Nat.exists_eq_succ_of_ne_zero (Nat.ne_of_gt (Nat.zero_lt_of_lt enough))
    obtain ⟨last, drained⟩ := ih (Nat.lt_of_succ_lt_succ enough)
    exact ⟨last, by rw [drain, found]; simp only [drained]⟩

/-- Draining that ends because there is nothing more has collected all items. -/
theorem yields_of_drain {limit : Nat} {s : σ} (ended : (drain limit s).2.1 = .exhausted) :
    Yields s (drain limit s).1 := by
  induction limit generalizing s with
  | zero => cases ended
  | succ limit ih =>
    rw [drain] at ended ⊢
    match found : next s with
    | (.error e, t) =>
      rw [found] at ended
      cases ended
    | (.ok none, t) => exact .done found
    | (.ok (some i), t) =>
      rw [found] at ended
      exact .item found (ih ended)

/-- What a cursor hands out depends on its next read alone. -/
theorem Yields.congr {s t : σ} {items : List ι} (h : Yields s items) (same : next t = next s) :
    Yields t items := by
  cases h with
  | done found => exact .done (same.trans found)
  | item found rest => exact .item (same.trans found) rest

/-- A cursor that reads another one and changes each item hands out the changed items. -/
theorem Yields.map {τ κ : Type} [Cursor τ κ ε] {g : σ → τ} {f : ι → κ}
    (step : ∀ s : σ, next (g s) = ((next s).1.map (Option.map f), g (next s).2))
    {s : σ} {items : List ι} (h : Yields s items) : Yields (g s) (items.map f) := by
  induction h with
  | @done s t found =>
    refine .done (t := g t) ?_
    rw [step, found]
    rfl
  | @item s t i items found _ ih =>
    refine .item (t := g t) ?_ ih
    rw [step, found]
    rfl

/-- A cursor that reads another one hands out the same items. -/
theorem Yields.wrap {τ : Type} [Cursor τ ι ε] {g : σ → τ}
    (step : ∀ s : σ, next (g s) = ((next s).1, g (next s).2))
    {s : σ} {items : List ι} (h : Yields s items) : Yields (g s) items := by
  have same (s : σ) : next (g s) = ((next s).1.map (Option.map id), g (next s).2) := by
    rw [step, Option.map_id, Except.map_id]
    rfl
  rw [← List.map_id items]
  exact h.map same

/-- A cursor hands out one sequence of items. -/
theorem Yields.unique {s : σ} {items items' : List ι} (h : Yields s items)
    (h' : Yields s items') : items = items' := by
  induction h generalizing items' with
  | done found =>
    cases h' with
    | done _ => rfl
    | item found' _ => rw [found] at found'; cases found'
  | item found _ ih =>
    cases h' with
    | done found' => rw [found] at found'; cases found'
    | item found' rest =>
      rw [found] at found'
      obtain ⟨e, rfl⟩ := Prod.mk.inj found'
      obtain rfl := Option.some.inj (Except.ok.inj e)
      rw [ih rest]

end Cursor

open Cursor (Yields)

/-- A snapshot hands out its items. -/
theorem Snapshot.yields (rows : List Row) : Yields (Snapshot.ofList rows) rows := by
  induction rows with
  | nil => exact .done rfl
  | cons row rows ih => exact .item (t := Snapshot.ofList rows) rfl ih

/-- A script without failures hands out its items. -/
theorem Scripted.yields {ι : Type} (items : List ι) (failClose : Bool) (served closes : Nat) :
    Yields (⟨items.map some, none, failClose, served, closes⟩ : Scripted ι) items := by
  induction items generalizing served with
  | nil => exact .done rfl
  | cons i items ih => exact .item rfl (ih (served + 1))

namespace Statements

variable {σ : Type} [Cursor σ Row Error]

/-- The statement of a row, if it is one to hand out. -/
def pick (s : Statements σ) (row : Row) : Option Statement :=
  match s.format.read s.layout row with
  | .ok statement => if s.accepts statement = .ok true then some statement else none
  | .error _ => none

/-- The row holds a statement that can be checked. -/
def Readable (s : Statements σ) (row : Row) : Prop :=
  ∃ statement accepted, s.format.read s.layout row = .ok statement
    ∧ s.accepts statement = .ok accepted

theorem next_of_open {s : Statements σ} (opened : s.closed = false) :
    Cursor.next s = s.advance := by
  change s.next = _
  rw [next, opened]
  rfl

theorem next_of_done {s : Statements σ} {rows : σ} (opened : s.closed = false)
    (found : Cursor.next s.rows = (.ok none, rows)) :
    Cursor.next s = (.ok none, { s with rows := rows }) := by
  rw [next_of_open opened, advance]
  split
  · next h => rw [found] at h; cases h
  · next h => rw [found] at h; cases h; rfl
  · next h => rw [found] at h; cases h

/-- A row is handed out as a statement or passed over. -/
theorem next_of_row {s : Statements σ} {rows : σ} {row : Row} {statement : Statement}
    {accepted : Bool} (opened : s.closed = false)
    (found : Cursor.next s.rows = (.ok (some row), rows))
    (read : s.format.read s.layout row = .ok statement)
    (accepts : s.accepts statement = .ok accepted) :
    Cursor.next s = if accepted then (.ok (some statement), { s with rows := rows })
      else Cursor.next { s with rows := rows } := by
  rw [next_of_open opened, next_of_open (s := { s with rows := rows }) opened, advance]
  split
  · next h => rw [found] at h; cases h
  · next h => rw [found] at h; cases h
  · next h =>
    rw [found] at h
    cases h
    simp only [read, accepts]
    cases accepted <;> rfl

/-- A cursor of statements hands out the statements that it accepts, if all its rows can be read. -/
theorem yields {s : Statements σ} {rows : List Row} (h : Yields s.rows rows)
    (opened : s.closed = false) (readable : ∀ row ∈ rows, s.Readable row) :
    Yields s (rows.filterMap s.pick) := by
  generalize hr : s.rows = cursor at h
  induction h generalizing s with
  | done found =>
    subst hr
    exact .done (next_of_done opened found)
  | @item r r' row rows found rest ih =>
    subst hr
    obtain ⟨statement, accepted, read, accepts⟩ := readable row List.mem_cons_self
    have later := ih (s := { s with rows := r' }) opened
      (fun row mem => readable row (List.mem_cons_of_mem _ mem)) rfl
    have step := next_of_row opened found read accepts
    cases accepted with
    | true =>
      have picked : s.pick row = some statement := by
        rw [pick, read]
        exact if_pos accepts
      rw [List.filterMap_cons_some picked]
      exact .item step later
    | false =>
      have dropped : s.pick row = none := by
        rw [pick, read]
        exact if_neg (by rw [accepts]; decide)
      rw [List.filterMap_cons_none dropped]
      exact later.congr step

end Statements

namespace Peekable

variable {σ ι ε : Type} [Cursor σ ι ε]

/-- A cursor that can show its next item hands out what it has been shown, and then the rest. -/
theorem yields_ofCursor {s : σ} {items : List ι} (h : Yields s items) :
    Yields (ofCursor s : Peekable σ ι) items := by
  apply h.wrap
  intro s
  change (ofCursor s : Peekable σ ι).next = _
  simp only [next, ofCursor]

theorem peek_of_nil {s : σ} (h : Yields s []) :
    ∃ input, (ofCursor s : Peekable σ ι).peek = (.ok none, input) := by
  cases h with
  | @done s s' found => exact ⟨ofCursor s', by simp only [peek, ofCursor, found]⟩

/-- Looking at the next item shows the first that is handed out, and takes nothing away. -/
theorem peek_of_cons {s : σ} {i : ι} {items : List ι} (h : Yields s (i :: items)) :
    ∃ input, (ofCursor s : Peekable σ ι).peek = (.ok (some i), input)
      ∧ Yields input (i :: items) := by
  cases h with
  | @item s s' i items found rest =>
    refine ⟨⟨s', some i⟩, by simp only [peek, ofCursor, found], ?_⟩
    exact .item (t := ofCursor s') rfl (yields_ofCursor rest)

end Peekable

end TripleIndex
