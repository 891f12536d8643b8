/-
  What no read of a cursor changes, and closing changes in one way: how often the cursor was closed,
  or which scan it reads. Whatever is so for a cursor is so for the cursors that read it
  (`Gauge.statements`, `Gauge.peekable`), which pass one closing on.
-/
import Mathlib
import TripleIndex.Cursor.Peekable
import TripleIndex.Cursor.Statements

namespace TripleIndex

/-- Something that no read of a cursor changes, with what closing makes of it. -/
structure Gauge (σ α : Type) {ι ε : Type} [Cursor σ ι ε] where
  of : σ → α
  shut : α → α
  next : ∀ s, of (Cursor.next s).2 = of s
  close : ∀ s, of (Cursor.close s).2 = shut (of s)

namespace Gauge

variable {σ α ι ε : Type}

theorem closeAll [Cursor σ ι ε] (g : Gauge σ α) (cursors : List σ) :
    (Cursor.closeAll cursors).map g.of = (cursors.map g.of).map g.shut := by
  unfold Cursor.closeAll
  rw [List.map_map, List.map_map]
  exact List.map_congr_left fun s _ => g.close s

section Statements

variable [Cursor σ Row Error] (g : Gauge σ α)

/-- Whatever rows are read and passed over, a read of a statement closes nothing. -/
theorem statements_advance (s : Statements σ) :
    g.of s.advance.2.rows = g.of s.rows ∧ s.advance.2.closed = s.closed := by
  fun_induction Statements.advance s with
  | case1 s e rows h => have kept := g.next s.rows; rw [h] at kept; exact ⟨kept, rfl⟩
  | case2 s rows h => have kept := g.next s.rows; rw [h] at kept; exact ⟨kept, rfl⟩
  | case3 s row rows h e hr => have kept := g.next s.rows; rw [h] at kept; exact ⟨kept, rfl⟩
  | case4 s row rows h statement hr e ha =>
    have kept := g.next s.rows; rw [h] at kept; exact ⟨kept, rfl⟩
  | case5 s row rows h statement hr ha =>
    have kept := g.next s.rows; rw [h] at kept; exact ⟨kept, rfl⟩
  | case6 s row rows h statement hr ha ih =>
    have kept := g.next s.rows
    rw [h] at kept
    exact ⟨ih.1.trans kept, ih.2⟩

/-- The gauge of the rows, and whether they were closed; a second closing does not reach them. -/
def statements : Gauge (Statements σ) (α × Bool) where
  of s := (g.of s.rows, s.closed)
  shut a := if a.2 then a else (g.shut a.1, true)
  next s := by
    change (g.of s.next.2.rows, s.next.2.closed) = _
    unfold Statements.next
    split
    · rfl
    · exact Prod.ext (g.statements_advance s).1 (g.statements_advance s).2
  close s := by
    change (g.of s.close.2.rows, s.close.2.closed) = _
    have reached := g.close s.rows
    unfold Statements.close
    cases closed : s.closed with
    | true => simp [closed]
    | false =>
      simp only [Bool.false_eq_true, if_false]
      split
      · next h => rw [h] at reached; exact Prod.ext reached rfl
      · next h => rw [h] at reached; exact Prod.ext reached rfl

end Statements

section Peekable

variable [Cursor σ ι ε] (g : Gauge σ α)

/-- The gauge of the cursor that is looked ahead in. -/
def peekable : Gauge (Peekable σ ι) α where
  of s := g.of s.inner
  shut := g.shut
  next s := by
    change g.of s.next.2.inner = _
    unfold Peekable.next
    split
    · rfl
    · exact g.next s.inner
  close s := g.close s.inner

/-- Looking ahead is a read. -/
theorem peekable_peek (s : Peekable σ ι) : g.of s.peek.2.inner = g.of s.inner := by
  have kept := g.next s.inner
  unfold Peekable.peek
  split
  · rfl
  · split
    · next h => rwa [h] at kept
    · next h => rwa [h] at kept

end Peekable

end Gauge

end TripleIndex
