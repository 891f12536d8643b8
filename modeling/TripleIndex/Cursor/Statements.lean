/-
  Cursors of statements: the rows of one scan, read back. For a pattern with a range each
  statement is checked once more, since a range of bytes may hold values of other datatypes.
-/
import TripleIndex.Cursor.Basic
import TripleIndex.Pattern
import TripleIndex.Query.Error
import TripleIndex.Row

namespace TripleIndex

/-- The statements of a cursor of rows. -/
structure Statements (σ : Type) where
  rows : σ
  layout : Layout
  format : RowFormat
  /-- The pattern that every statement is checked against, if any. -/
  residual : Option Pattern
  closed : Bool

namespace Statements

variable {σ : Type} [Cursor σ Row Error]

/-- Whether a statement is to be handed out. -/
def accepts (s : Statements σ) (statement : Statement) : Except Error Bool :=
  match s.residual with
  | some p => p.matches? s.format.codec statement
  | none => .ok true

/-- Read rows until one holds a statement to hand out. -/
def advance (s : Statements σ) : Except QueryError (Option Statement) × Statements σ :=
  match _read : Cursor.next s.rows with
  | (.error e, rows) => (.error (.core e), { s with rows := rows })
  | (.ok none, rows) => (.ok none, { s with rows := rows })
  | (.ok (some row), rows) =>
    match s.format.read s.layout row with
    | .error e => (.error (.core e), { s with rows := rows })
    | .ok statement =>
      match s.accepts statement with
      | .error e => (.error (.core e), { s with rows := rows })
      | .ok true => (.ok (some statement), { s with rows := rows })
      | .ok false => advance { s with rows := rows }
termination_by Cursor.remaining s.rows
decreasing_by
  have := Cursor.remaining_next_lt s.rows row (by rw [_read])
  rwa [_read] at this

/-- The next statement; an error once the cursor is closed. -/
def next (s : Statements σ) : Except QueryError (Option Statement) × Statements σ :=
  if s.closed then (.error .cursorClosed, s) else s.advance

/-- Close the rows, the first time only. -/
def close (s : Statements σ) : Except QueryError Unit × Statements σ :=
  if s.closed then (.ok (), s)
  else
    match Cursor.close s.rows with
    | (.ok (), rows) => (.ok (), { s with rows := rows, closed := true })
    | (.error e, rows) => (.error (.core e), { s with rows := rows, closed := true })

theorem remaining_advance_le (s : Statements σ) :
    Cursor.remaining s.advance.2.rows ≤ Cursor.remaining s.rows := by
  fun_induction advance s with
  | case1 s e rows h => have := Cursor.remaining_next_le s.rows; rwa [h] at this
  | case2 s rows h => have := Cursor.remaining_next_le s.rows; rwa [h] at this
  | case3 s row rows h e hr => have := Cursor.remaining_next_le s.rows; rwa [h] at this
  | case4 s row rows h statement hr e ha =>
    have := Cursor.remaining_next_le s.rows; rwa [h] at this
  | case5 s row rows h statement hr ha =>
    have := Cursor.remaining_next_le s.rows; rwa [h] at this
  | case6 s row rows h statement hr ha ih =>
    have := Cursor.remaining_next_le s.rows
    rw [h] at this
    exact Nat.le_trans ih this

theorem remaining_advance_lt (s : Statements σ) (i : Statement)
    (hi : s.advance.1 = .ok (some i)) :
    Cursor.remaining s.advance.2.rows < Cursor.remaining s.rows := by
  fun_induction advance s with
  | case1 s e rows h => cases hi
  | case2 s rows h => cases hi
  | case3 s row rows h e hr => cases hi
  | case4 s row rows h statement hr e ha => cases hi
  | case5 s row rows h statement hr ha =>
    have := Cursor.remaining_next_lt s.rows row (by rw [h]); rwa [h] at this
  | case6 s row rows h statement hr ha ih =>
    have := Cursor.remaining_next_le s.rows
    rw [h] at this
    exact Nat.lt_of_lt_of_le (ih hi) this

instance : Cursor (Statements σ) Statement QueryError where
  next := next
  close := close
  remaining s := Cursor.remaining s.rows
  remaining_next_le s := by
    unfold next
    split
    · exact Nat.le_refl _
    · exact remaining_advance_le s
  remaining_next_lt s i h := by
    unfold next at h ⊢
    split
    · next hc => simp [hc] at h
    · next hc =>
      simp only [hc] at h
      exact remaining_advance_lt s i h

end Statements

end TripleIndex
