/-
  The commands of a session and the replies to them.
-/
import TripleIndex.Session.Handle

namespace TripleIndex

/-- What a session is asked to do. Commands that open a cursor keep it under a name. -/
inductive Command where
  | insert (s : Statement)
  /-- Insert statements up to the first that fails. -/
  | load (statements : List Statement)
  | remove (s : Statement)
  /-- Write a row as it is. -/
  | insertRow (layout : Layout) (row : Row)
  /-- Tell how many rows each layout has. -/
  | sizes
  /-- Tell how the session is set up. -/
  | describe
  /-- Tell which scans were requested. -/
  | requests
  | scan (plan : ScanPlan) (name : String)
  | query (p : Pattern) (name : String)
  | queryIn (layout : Layout) (p : Pattern) (name : String)
  | joinObjects (terms : List Term) (name : String)
  | joinSubjects (pairs : List (Term × Term)) (name : String)
  /-- Make a cursor of statements peekable. -/
  | makePeekable (name : String)
  | next (name : String)
  /-- Read on to the end, but not without bound. -/
  | drain (name : String)
  | peek (name : String)
  | close (name : String)
  /-- Let go of a cursor. -/
  | drop (name : String)

/-- What a session answers. -/
inductive Reply where
  | done
  /-- Whether a statement was there to be removed. -/
  | removed (found : Bool)
  /-- The rows of each layout, and whether there are none at all. -/
  | sizes (rows : List Nat) (isEmpty : Bool)
  /-- The configurations of queries and of the store, and the layouts that queries use. -/
  | description (engine store : Config) (layouts : List Layout)
  | requests (requests : List ScanPlan)
  | opened
  /-- A query was opened on a layout. -/
  | openedOn (layout : Layout)
  | item (found : Option Item)
  | drained (items : List Item) (ending : Cursor.Ending Failure)
  /-- Whether there was a cursor to let go of. -/
  | dropped (existed : Bool)
  /-- No cursor of this name takes the command. -/
  | noSuchHandle
  | failed (failure : Failure)

end TripleIndex
