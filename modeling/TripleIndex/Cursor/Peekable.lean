/-
  Cursors that can show the next item ahead of reading it. At most one item is held back.
-/
import TripleIndex.Cursor.Basic

namespace TripleIndex

/-- A cursor and the item that was looked at, if it has not been read. -/
structure Peekable (σ ι : Type) where
  inner : σ
  peeked : Option ι

namespace Peekable

variable {σ ι ε : Type} [Cursor σ ι ε]

/-- The cursor with nothing looked at. -/
def ofCursor (inner : σ) : Peekable σ ι :=
  ⟨inner, none⟩

/-- The next item, left to be read. -/
def peek (s : Peekable σ ι) : Except ε (Option ι) × Peekable σ ι :=
  match s.peeked with
  | some i => (.ok (some i), s)
  | none =>
    match Cursor.next s.inner with
    | (.error e, inner) => (.error e, { s with inner := inner })
    | (.ok i, inner) => (.ok i, ⟨inner, i⟩)

/-- The next item: the one looked at, or else one read. -/
def next (s : Peekable σ ι) : Except ε (Option ι) × Peekable σ ι :=
  match s.peeked with
  | some i => (.ok (some i), { s with peeked := none })
  | none =>
    match Cursor.next s.inner with
    | (i, inner) => (i, { s with inner := inner })

/-- Close the cursor and forget the item looked at. -/
def close (s : Peekable σ ι) : Except ε Unit × Peekable σ ι :=
  match Cursor.close s.inner with
  | (outcome, inner) => (outcome, ⟨inner, none⟩)

/-- The cursor behind, as its reads have left it. The item looked at is not put back. -/
def intoInner (s : Peekable σ ι) : σ :=
  s.inner

/-- A bound on the items that are left, counting the one looked at. -/
def remaining (s : Peekable σ ι) : Nat :=
  Cursor.remaining s.inner + s.peeked.toList.length

instance : Cursor (Peekable σ ι) ι ε where
  next := next
  close := close
  remaining := remaining
  remaining_next_le s := by
    unfold next remaining
    split
    · exact Nat.le_add_right _ _
    · exact Nat.add_le_add_right (Cursor.remaining_next_le s.inner) _
  remaining_next_lt s i h := by
    unfold next at h ⊢
    split
    · next hp => simp [remaining, hp]
    · next hp =>
      simp only [hp] at h
      exact Nat.add_lt_add_right (Cursor.remaining_next_lt s.inner i h) _

end Peekable

end TripleIndex
