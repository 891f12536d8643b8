/-
  Handles: the open cursors of a session, of whichever kind. All are read and closed in the same
  way, so a handle is a cursor itself.
-/
import TripleIndex.Query.Join
import TripleIndex.Store.Recorder

namespace TripleIndex

/-- What a read of a handle hands out. -/
inductive Item where
  | row (r : Row)
  | statement (s : Statement)
  | value (v : Value)
  deriving DecidableEq

/-- Why a step of a session failed: in the store, or in a query. -/
inductive Failure where
  | store (error : Error)
  | query (error : QueryError)
  deriving DecidableEq

/-- An open cursor. -/
inductive Handle where
  | rows (cursor : ScanCursor)
  | statements (input : Statements ScanCursor)
  | peekable (input : Peekable (Statements ScanCursor) Statement)
  | objectJoin (join : ObjectJoin (Statements ScanCursor))
  | subjectJoin (join : SubjectJoin (Peekable (Statements ScanCursor) Statement))

namespace Handle

section Generic

variable {α σ ι ε : Type} [Cursor σ ι ε]

/-- Read a cursor as a handle. -/
def nextBy (item : ι → Item) (fail : ε → Failure) (wrap : σ → Handle) (s : σ) :
    Except Failure (Option Item) × Handle :=
  match Cursor.next s with
  | (.ok found, s) => (.ok (found.map item), wrap s)
  | (.error e, s) => (.error (fail e), wrap s)

/-- Close a cursor as a handle. -/
def closeBy (fail : ε → Failure) (wrap : σ → Handle) (s : σ) : Except Failure Unit × Handle :=
  match Cursor.close s with
  | (.ok (), s) => (.ok (), wrap s)
  | (.error e, s) => (.error (fail e), wrap s)

theorem nextBy_snd (item : ι → Item) (fail : ε → Failure) (wrap : σ → Handle) (s : σ) :
    (nextBy item fail wrap s).2 = wrap (Cursor.next s).2 := by
  unfold nextBy
  split <;> next h => rw [h]

theorem exists_of_nextBy {item : ι → Item} {fail : ε → Failure} {wrap : σ → Handle} {s : σ}
    {i : Item} (h : (nextBy item fail wrap s).1 = .ok (some i)) :
    ∃ j, (Cursor.next s).1 = .ok (some j) := by
  unfold nextBy at h
  split at h
  · next found s' hn =>
    obtain ⟨j, hj, _⟩ := Option.map_eq_some_iff.mp (Except.ok.inj h)
    exact ⟨j, by rw [hn, hj]⟩
  · cases h

end Generic

/-- The next item of a handle. -/
def next : Handle → Except Failure (Option Item) × Handle
  | .rows s => nextBy .row .store .rows s
  | .statements s => nextBy .statement .query .statements s
  | .peekable s => nextBy .statement .query .peekable s
  | .objectJoin s => nextBy .statement .query .objectJoin s
  | .subjectJoin s => nextBy .value .query .subjectJoin s

/-- Close a handle. -/
def close : Handle → Except Failure Unit × Handle
  | .rows s => closeBy .store .rows s
  | .statements s => closeBy .query .statements s
  | .peekable s => closeBy .query .peekable s
  | .objectJoin s => closeBy .query .objectJoin s
  | .subjectJoin s => closeBy .query .subjectJoin s

/-- A bound on the items that are left. -/
def remaining : Handle → Nat
  | .rows s => Cursor.remaining s
  | .statements s => Cursor.remaining s
  | .peekable s => Cursor.remaining s
  | .objectJoin s => Cursor.remaining s
  | .subjectJoin s => Cursor.remaining s

instance : Cursor Handle Item Failure where
  next := next
  close := close
  remaining := remaining
  remaining_next_le s := by
    cases s <;> rw [next, nextBy_snd] <;> exact Cursor.remaining_next_le _
  remaining_next_lt s i h := by
    cases s
    all_goals
      obtain ⟨j, hj⟩ := exists_of_nextBy h
      rw [next, nextBy_snd]
      exact Cursor.remaining_next_lt _ j hj

/-- The next statement of a peekable handle, left to be read. -/
def peek? : Handle → Option (Except QueryError (Option Statement) × Handle)
  | .peekable s =>
    let (found, s) := s.peek
    some (found, .peekable s)
  | _ => none

/-- The handle of statements, made peekable. -/
def peekable? : Handle → Option Handle
  | .statements s => some (.peekable (Peekable.ofCursor s))
  | _ => none

/-- How far a join has come. -/
def state? : Handle → Option MergeState
  | .objectJoin j => some j.merge.state
  | .subjectJoin j => some j.merge.state
  | _ => none

/-- The scans that a handle reads. -/
def scans : Handle → List ScanCursor
  | .rows s => [s]
  | .statements s => [s.rows]
  | .peekable s => [s.inner.rows]
  | .objectJoin j => j.merge.inputs.map Statements.rows
  | .subjectJoin j => j.merge.inputs.map fun s => s.inner.rows

/-- Let go of a handle. Joins close their inputs then; the others stay as they are. -/
def release : Handle → Handle
  | .objectJoin j => .objectJoin ⟨j.merge.release⟩
  | .subjectJoin j => .subjectJoin ⟨j.merge.release⟩
  | h => h

end Handle

end TripleIndex
