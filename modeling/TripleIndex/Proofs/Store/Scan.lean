/-
  Scans of any store, whatever wrote its rows. A plan bounds rows, but a table orders its cells by
  row, family and visibility. The cell of a row without family and visibility comes before all others
  of the row, so a scan takes these as its bounds: all cells of the first row are behind the lower
  one, and none of the row that ends the interval is before the upper one.

  * `Store.mem_rows_iff`, `Store.pairwise_rows`: what a scan finds, and in which order.
  * `Store.scan_exact`: what the cursor of a scan hands out, and with which bounds a table is asked.
-/
import Mathlib
import TripleIndex.Proofs.Cursor
import TripleIndex.Proofs.Store.Table

namespace TripleIndex

open Cursor (Yields)

/-- Bounds in order are those of cells in order. -/
theorem KeyInterval.before_of_span? {r : KeyInterval} {span : CellSpan} (h : r.span? = some span) :
    span.lower.Before span.upper := by
  obtain ⟨lower, upper⟩ := bounds_of_span? h
  rw [lower, upper, CellKey.before_row_iff]
  have some : ¬ r.stop ≤ r.start := fun le => by
    rw [span?_eq_none_iff.mpr le] at h
    cases h
  exact List.not_le.mp some

namespace Store

variable {store : Store} {plan : ScanPlan}

/-- A scan finds the rows of the cells that its plan asks for. -/
theorem mem_rows_iff {row : Row} : row ∈ store.rows plan ↔
    (row.cellKey, row.timestamp) ∈ (store.table plan.layout).cells
      ∧ Asked plan (row.cellKey, row.timestamp) := by
  rw [rows_eq, List.mem_map]
  constructor
  · rintro ⟨cell, mem, rfl⟩
    obtain ⟨stored, asked⟩ := List.mem_filter.mp mem
    exact ⟨stored, of_decide_eq_true asked⟩
  · rintro ⟨stored, asked⟩
    exact ⟨_, List.mem_filter.mpr ⟨stored, decide_eq_true asked⟩, rfl⟩

/-- A scan finds its rows in the order of the cells, so none of them twice. -/
theorem pairwise_rows (store : Store) (plan : ScanPlan) :
    (store.rows plan).Pairwise fun a b => a.cellKey.Before b.cellKey := by
  rw [rows_eq, List.pairwise_map]
  exact (store.table plan.layout).ascending.filter _

/-- A scan finds nothing between bounds that hold no keys. -/
theorem rows_of_le (h : plan.range.stop ≤ plan.range.start) : store.rows plan = [] := by
  rw [List.eq_nil_iff_forall_not_mem]
  intro row mem
  have inside := (mem_rows_iff.mp mem).2.1
  rw [KeyInterval.contains_eq_false h] at inside
  cases inside

/-- Whatever rows a store holds, a scan succeeds, leaves the store as it is, and hands out exactly the
cells of the layout whose row is in the interval and whose family is the one asked for, if one is. It
hands out each of them once, with its timestamp, in ascending order of row, family and visibility. A
table is asked exactly if the bounds are in order, and then from a cell to one behind it; otherwise
nothing is handed out. -/
theorem scan_exact (store : Store) (plan : ScanPlan) :
    ∃ cursor rows, Scanner.scan store plan = (.ok cursor, store) ∧ Yields cursor rows
      ∧ (rows.Pairwise fun a b => a.cellKey.Before b.cellKey)
      ∧ (∀ row, row ∈ rows ↔
          (row.cellKey, row.timestamp) ∈ (store.table plan.layout).cells
            ∧ plan.range.contains row.key = true
            ∧ ∀ family, plan.family = some family → row.family = family)
      ∧ (plan.range.span? = none ↔ plan.range.stop ≤ plan.range.start)
      ∧ (∀ span, plan.range.span? = some span → span.lower.Before span.upper)
      ∧ (plan.range.stop ≤ plan.range.start → rows = []) :=
  ⟨_, store.rows plan, rfl, Snapshot.yields _, pairwise_rows store plan, fun _ => mem_rows_iff,
    KeyInterval.span?_eq_none_iff, fun _ => KeyInterval.before_of_span?, rows_of_le⟩

/-- A row at the lower bound is handed out, with its family and visibility, and a row at the upper
bound is not, without any; between equal bounds there is nothing. -/
theorem scan_exact_bounds :
    let first : Row := ⟨[0x61], [0x67], [0x76], some 7⟩
    let last : Row := ⟨[0x62], [], [], none⟩
    let store := ((Store.empty Config.default).insertRow .pos last).insertRow .pos first
    (∃ cursor rows, Scanner.scan store ⟨.pos, ⟨[0x61], [0x62]⟩, none⟩ = (.ok cursor, store)
        ∧ Yields cursor rows ∧ first ∈ rows ∧ last ∉ rows)
      ∧ ∃ cursor, Scanner.scan store ⟨.pos, ⟨[0x62], [0x62]⟩, none⟩ = (.ok cursor, store)
        ∧ Yields cursor [] := by
  intro first last store
  constructor
  · obtain ⟨cursor, rows, scanned, yields, _, exact, _⟩ :=
      scan_exact store ⟨.pos, ⟨[0x61], [0x62]⟩, none⟩
    refine ⟨cursor, rows, scanned, yields, (exact first).mpr ⟨?_, by decide, nofun⟩, fun mem => ?_⟩
    · exact Table.mem_insert.mpr (.inl rfl)
    · exact absurd ((exact last).mp mem).2.1 (by decide)
  · obtain ⟨cursor, rows, scanned, yields, _, _, _, _, none⟩ :=
      scan_exact store ⟨.pos, ⟨[0x62], [0x62]⟩, none⟩
    exact ⟨cursor, scanned, none (List.le_refl _) ▸ yields⟩

end Store

end TripleIndex
