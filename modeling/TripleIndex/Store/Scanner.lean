/-
  Scanning: a store runs a plan and hands out a cursor over rows. The plain store never refuses, and
  its cursors hold the rows as they were when the scan began.
-/
import TripleIndex.Cursor.Basic
import TripleIndex.Store.Basic

namespace TripleIndex

/-- A store that runs scans, with states `ω` and row cursors `σ`. -/
class Scanner (ω : Type) (σ : outParam Type) where
  /-- Run a scan. -/
  scan : ω → ScanPlan → Except Error σ × ω

instance : Cursor (Snapshot Row) Row Error where
  next s := (.ok s.next.1, s.next.2)
  close s := (.ok (), s.close)
  remaining s := s.items.length
  remaining_next_le s := s.length_next_le
  remaining_next_lt _ _ h := Snapshot.length_next_lt (Except.ok.inj h)

instance : Scanner Store (Snapshot Row) where
  scan store plan := (.ok (Snapshot.ofList (store.rows plan)), store)

end TripleIndex
