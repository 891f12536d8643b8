/-
  The store: one table for each layout. A statement is written to every layout that is kept or,
  if one of them cannot take it, to none.
-/
import TripleIndex.Config
import TripleIndex.Planner
import TripleIndex.Row
import TripleIndex.Store.Table

namespace TripleIndex

/-- The cell of a row. -/
def Row.cellKey (row : Row) : CellKey :=
  ⟨row.key, row.family, row.visibility⟩

/-- The row of a cell. -/
def Row.ofCell (cell : Cell) : Row :=
  ⟨cell.1.row, cell.1.family, cell.1.visibility, cell.2⟩

/-- The cells of the rows in an interval, if it holds any keys. -/
def KeyInterval.span? (r : KeyInterval) : Option CellSpan :=
  if empty : r.isEmpty then none
  else
    some ⟨⟨r.start, [], []⟩, ⟨r.stop, [], []⟩, fun before =>
      empty (decide_eq_true (List.le_of_lt (CellKey.before_row_iff.mp before)))⟩

/-- Tables under a configuration. -/
structure Store where
  config : Config
  table : Layout → Table

namespace Store

/-- The store without rows. -/
def empty (config : Config) : Store :=
  ⟨config, fun _ => Table.empty⟩

/-- How statements are written to the store. -/
def format (store : Store) (c : Codec) : RowFormat :=
  ⟨c, store.config.hashedKeys⟩

/-- The rows that a statement takes up in the store. -/
def rowsOf (store : Store) (c : Codec) (s : Statement) : Except Error (List (Layout × Row)) :=
  (store.format c).writeAll store.config.layouts s

/-- Put another table in the place of a layout's. -/
def setTable (store : Store) (layout : Layout) (table : Table) : Store :=
  { store with table := fun l => if l = layout then table else store.table l }

/-- Write a row to the table of a layout, as it is. -/
def insertRow (store : Store) (layout : Layout) (row : Row) : Store :=
  store.setTable layout ((store.table layout).insert row.cellKey row.timestamp)

/-- Drop a row from the table of a layout. -/
def eraseRow (store : Store) (layout : Layout) (row : Row) : Store :=
  store.setTable layout ((store.table layout).erase row.cellKey)

/-- Whether the table of a layout has the cell of a row. -/
def hasRow (store : Store) (layout : Layout) (row : Row) : Bool :=
  (store.table layout).contains row.cellKey

/-- Write a statement to every layout that is kept. -/
def insert (store : Store) (c : Codec) (s : Statement) : Except Error Store := do
  let rows ← store.rowsOf c s
  .ok (rows.foldl (fun store (layout, row) => store.insertRow layout row) store)

/-- Drop a statement from every layout that is kept, and tell whether any had it. -/
def remove (store : Store) (c : Codec) (s : Statement) : Except Error (Bool × Store) := do
  let rows ← store.rowsOf c s
  .ok (rows.any fun (layout, row) => store.hasRow layout row,
    rows.foldl (fun store (layout, row) => store.eraseRow layout row) store)

/-- The number of rows of a layout. -/
def size (store : Store) (layout : Layout) : Nat :=
  (store.table layout).size

/-- Whether no layout has a row. -/
def isEmpty (store : Store) : Bool :=
  Layout.all.all fun layout => store.size layout = 0

/-- The rows that a plan asks for, in key order. An interval without keys is not looked up. -/
def rows (store : Store) (plan : ScanPlan) : List Row :=
  match plan.range.span? with
  | none => []
  | some span =>
    let kept := ((store.table plan.layout).slice span).filter fun cell =>
      match plan.family with
      | some family => cell.1.family = family
      | none => true
    kept.map Row.ofCell

end Store

end TripleIndex
