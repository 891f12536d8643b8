/-
  A store that keeps the requests it was asked and fails where it is told to. Its cursors count
  their reads and closings.
-/
import TripleIndex.Store.Scanner

namespace TripleIndex

/-- Failures of one scan. -/
structure Fault where
  /-- The number of the scan, counted from zero. -/
  scan : Nat
  /-- Whether the scan is refused. -/
  refuses : Bool
  /-- The number of reads after which all fail. -/
  failAfter : Option Nat
  /-- Whether closing fails. -/
  failsClose : Bool
  deriving DecidableEq

/-- The cursor of a recorded scan. -/
structure ScanCursor where
  rows : Snapshot Row
  failAfter : Option Nat
  failsClose : Bool
  /-- The number of reads that did not fail. -/
  served : Nat
  /-- The number of times the cursor was closed. -/
  closes : Nat

namespace ScanCursor

/-- The next row. A failing read is not counted. -/
def next (s : ScanCursor) : Except Error (Option Row) × ScanCursor :=
  if s.failAfter = some s.served then (.error (.storage "tablet server unavailable"), s)
  else
    let (found, rows) := s.rows.next
    (.ok found, { s with rows := rows, served := s.served + 1 })

/-- Close the rows, and then fail if the scan was told to. -/
def close (s : ScanCursor) : Except Error Unit × ScanCursor :=
  (if s.failsClose then .error (.storage "close failed") else .ok (),
    { s with rows := s.rows.close, closes := s.closes + 1 })

instance : Cursor ScanCursor Row Error where
  next := next
  close := close
  remaining s := s.rows.items.length
  remaining_next_le s := by
    unfold next
    split
    · exact Nat.le_refl _
    · exact s.rows.length_next_le
  remaining_next_lt s row h := by
    unfold next at h ⊢
    split
    · next hf => simp [hf] at h
    · next hf =>
      rw [if_neg hf] at h
      exact Snapshot.length_next_lt (Except.ok.inj h)

end ScanCursor

/-- A store with its faults and the requests it was asked so far. -/
structure Recorder where
  store : Store
  faults : List Fault
  requests : List ScanPlan

namespace Recorder

/-- The recorder of a store that was not asked anything. -/
def ofStore (store : Store) (faults : List Fault) : Recorder :=
  ⟨store, faults, []⟩

/-- Run a scan, unless it is to be refused. -/
def scan (recorder : Recorder) (plan : ScanPlan) : Except Error ScanCursor × Recorder :=
  let number := recorder.requests.length
  let recorded := { recorder with requests := recorder.requests ++ [plan] }
  let rows := Snapshot.ofList (recorder.store.rows plan)
  match recorder.faults.find? fun fault => fault.scan = number with
  | none => (.ok ⟨rows, none, false, 0, 0⟩, recorded)
  | some fault =>
    if fault.refuses then (.error (.storage "scan refused"), recorded)
    else (.ok ⟨rows, fault.failAfter, fault.failsClose, 0, 0⟩, recorded)

instance : Scanner Recorder ScanCursor where
  scan := scan

end Recorder

end TripleIndex
