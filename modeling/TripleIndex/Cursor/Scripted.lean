/-
  Cursors that follow a script: given items, some of which are missing, and failures at a given
  read and at closing. They count their reads and closings; closing does not stop reads.
-/
import TripleIndex.Cursor.Basic
import TripleIndex.Query.Error

namespace TripleIndex

/-- A cursor over given items, with scripted failures. -/
structure Scripted (ι : Type) where
  /-- What the reads find; `none` finds nothing. -/
  items : List (Option ι)
  /-- The read from which on all fail, counted from zero. -/
  failAt : Option Nat
  failClose : Bool
  served : Nat
  closes : Nat

namespace Scripted

variable {ι : Type}

/-- The cursor before its first read. -/
def ofItems (items : List (Option ι)) (failAt : Option Nat) (failClose : Bool) : Scripted ι :=
  ⟨items, failAt, failClose, 0, 0⟩

/-- The next item of the script. A failing read is not counted. -/
def next (s : Scripted ι) : Except QueryError (Option ι) × Scripted ι :=
  if s.failAt = some s.served then (.error (.core (.storage "scan failed")), s)
  else
    (.ok (s.items.headD none), { s with items := s.items.drop 1, served := s.served + 1 })

/-- Count one closing, and fail if the script says so. -/
def close (s : Scripted ι) : Except QueryError Unit × Scripted ι :=
  (if s.failClose then .error (.core (.storage "close failed")) else .ok (),
    { s with closes := s.closes + 1 })

instance : Cursor (Scripted ι) ι QueryError where
  next := next
  close := close
  remaining s := s.items.length
  remaining_next_le s := by
    unfold next
    split
    · exact Nat.le_refl _
    · simp
  remaining_next_lt s i h := by
    unfold next at h ⊢
    split
    · next hf => simp [hf] at h
    · next hf =>
      simp only [hf] at h
      cases hs : s.items with
      | nil => simp [hs] at h
      | cons j items => simp

end Scripted

end TripleIndex
