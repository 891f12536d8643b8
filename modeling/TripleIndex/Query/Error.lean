/-
  Errors of queries: those of encoding, planning and storage, and two of their own.
-/
import TripleIndex.Error

namespace TripleIndex

/-- Why a query or one of its reads failed. -/
inductive QueryError where
  /-- An error from below. -/
  | core (error : Error)
  /-- An argument outside what a join accepts. -/
  | invalidArgument (detail : String)
  /-- A read after closing. -/
  | cursorClosed
  deriving DecidableEq

/-- The wording of an error. -/
def QueryError.message : QueryError → String
  | .core error => s!"Core error: {error.message}"
  | .invalidArgument detail => s!"Invalid argument: {detail}"
  | .cursorClosed => "Cursor is closed"

end TripleIndex
