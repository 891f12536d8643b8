/-
  Errors of encoding, planning and storage. Each kind has one wording; the detail is written by
  the operation that fails.
-/
import TripleIndex.Layout

namespace TripleIndex

/-- Why an operation failed. None is retried here. -/
inductive Error where
  /-- No resolver for a datatype or marker. -/
  | unsupportedType (detail : String)
  /-- Ends of a range that are not ordered against each other. -/
  | invalidRange (detail : String)
  /-- A pattern that one scan of the layout does not answer. -/
  | unsupportedPattern (layout : Layout) (detail : String)
  /-- A pattern that no registered layout answers. -/
  | noApplicableLayout (detail : String)
  /-- An argument outside what the operation accepts. -/
  | invalidArgument (detail : String)
  /-- A value that cannot be encoded. -/
  | invalidValue (detail : String)
  /-- Stored bytes that cannot be read back. -/
  | decode (detail : String)
  /-- A failure of the store. -/
  | storage (detail : String)
  deriving DecidableEq

namespace Error

/-- The wording of an error. -/
def message : Error → String
  | .unsupportedType detail => s!"Unsupported type: {detail}"
  | .invalidRange detail => s!"Invalid range: {detail}"
  | .unsupportedPattern layout detail =>
    s!"Unsupported pattern for layout {layout.name}: {detail}"
  | .noApplicableLayout detail => s!"No applicable layout for pattern: {detail}"
  | .invalidArgument detail => s!"Invalid argument: {detail}"
  | .invalidValue detail => s!"Invalid value: {detail}"
  | .decode detail => s!"Decode error: {detail}"
  | .storage detail => s!"Storage error: {detail}"

/-- Whether the store reported the error. -/
def isStorage : Error → Bool
  | .storage _ => true
  | _ => false

end Error

end TripleIndex
