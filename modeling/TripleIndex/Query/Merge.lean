/-
  Merging sorted inputs on a common key: the lanes are brought to one key, the first lane's
  statement is handed out, and on the next pull every lane moves on. Equal keys inside one input
  therefore pair up in order, and the first input to run out ends the merge. A match is handed out
  before anything past it is read, so a failing read never takes a match away.
-/
import TripleIndex.Query.Lane

namespace TripleIndex

/-- How far a merge has come. -/
inductive MergeState where
  /-- Nothing has been read. -/
  | start
  /-- Matches are being looked for. -/
  | checking
  /-- An input ran out or failed, or the merge was closed. -/
  | exhausted
  deriving DecidableEq

/-- The word for a state. -/
def MergeState.name : MergeState → String
  | .start => "start"
  | .checking => "checking"
  | .exhausted => "exhausted"

/-- A merge of inputs. -/
structure Merge (σ : Type) where
  key : MergeKey
  codec : Codec
  lanes : List (Lane σ)
  state : MergeState
  /-- Whether every lane has still to move past the match that was handed out. -/
  pending : Bool
  closed : Bool

namespace Merge

variable {σ : Type} [Cursor σ Statement QueryError]

/-- The merge of inputs before anything is read. -/
def ofInputs (key : MergeKey) (c : Codec) (inputs : List σ) : Merge σ :=
  ⟨key, c, inputs.map Lane.ofInput, .start, false, false⟩

/-- A merge that has nothing to hand out. -/
def exhausted (key : MergeKey) (c : Codec) : Merge σ :=
  ⟨key, c, [], .exhausted, false, false⟩

/-- A bound on the items that are left. -/
def load (m : Merge σ) : Nat :=
  Lane.totalLoad m.lanes

/-- The lanes with their keys brought together; `false` if one of them runs out first. -/
def seek (m : Merge σ) : Except QueryError Bool × List (Lane σ) :=
  if m.state = .start ∨ m.pending then
    match Lane.advanceAll m.key m.codec m.lanes with
    | (.ok true, lanes) => Lane.align m.key m.codec lanes
    | (outcome, lanes) => (outcome, lanes)
  else Lane.align m.key m.codec m.lanes

/-- The next match: the statement of the first lane. -/
def pull (m : Merge σ) : Except QueryError (Option Statement) × Merge σ :=
  if m.state = .exhausted then (.ok none, m)
  else
    match m.seek with
    | (.error e, lanes) =>
      (.error e, { m with lanes := lanes.map Lane.letGo, state := .exhausted, pending := false })
    | (.ok false, lanes) =>
      (.ok none, { m with lanes := lanes, state := .exhausted, pending := false })
    | (.ok true, lanes) =>
      let (found, lanes) := Lane.takeFirst lanes
      (.ok found, { m with lanes := lanes, state := .checking, pending := true })

/-- The next match; an error once the merge is closed. -/
def next (m : Merge σ) : Except QueryError (Option Statement) × Merge σ :=
  if m.closed then (.error .cursorClosed, m) else m.pull

/-- Close every input that has not been closed, and report the first failure. -/
def close (m : Merge σ) : Except QueryError Unit × Merge σ :=
  let (outcome, lanes) := Lane.closeAll m.lanes
  (outcome, { m with lanes := lanes, state := .exhausted, pending := false, closed := true })

/-- Let go of a merge that is not used any more, closing what is still open. -/
def release (m : Merge σ) : Merge σ :=
  m.close.2

/-- The inputs of a merge. -/
def inputs (m : Merge σ) : List σ :=
  m.lanes.map Lane.input

theorem totalLoad_seek_le (m : Merge σ) : Lane.totalLoad m.seek.2 ≤ m.load := by
  unfold seek
  split
  · have le := Lane.totalLoad_advanceAll_le m.key m.codec m.lanes
    split
    · next h =>
      rw [h] at le
      exact Nat.le_trans (Lane.totalLoad_align_le ..) le
    · next h => rwa [h] at le
  · exact Lane.totalLoad_align_le ..

theorem load_pull_le (m : Merge σ) : m.pull.2.load ≤ m.load := by
  have le := totalLoad_seek_le m
  unfold pull
  split
  · exact Nat.le_refl _
  · split
    · next h => rw [h] at le; exact Nat.le_trans (Lane.totalLoad_letGo_le _) le
    · next h => rwa [h] at le
    · next h => rw [h] at le; exact Nat.le_trans (Lane.totalLoad_takeFirst_le _) le

theorem load_pull_lt {m : Merge σ} {s : Statement} (h : m.pull.1 = .ok (some s)) :
    m.pull.2.load < m.load := by
  have le := totalLoad_seek_le m
  unfold pull at h ⊢
  split at h
  · cases h
  · next live =>
    rw [if_neg live]
    split at h
    · cases h
    · cases h
    · next lanes found =>
      rw [found] at le
      exact Nat.lt_of_lt_of_le (Lane.totalLoad_takeFirst_lt (Except.ok.inj h)) le

instance : Cursor (Merge σ) Statement QueryError where
  next := next
  close := close
  remaining := load
  remaining_next_le m := by
    unfold next
    split
    · exact Nat.le_refl _
    · exact load_pull_le m
  remaining_next_lt m s h := by
    unfold next at h ⊢
    split
    · next hc => simp [hc] at h
    · next hc =>
      simp only [hc] at h
      exact load_pull_lt h

end Merge

end TripleIndex
