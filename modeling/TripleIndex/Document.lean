/-
  Structured documents, from which settings are read, and what is wrong with a document that does
  not fit. Every misfit names what was found and what was expected.
-/
import TripleIndex.Numeral.Binary
import TripleIndex.Text.Quoted

namespace TripleIndex

open Numeral (Binary Format integerText)

/-- A structured document. -/
inductive Document where
  | null
  | boolean (b : Bool)
  | integer (n : Int)
  | real (x : Binary Format.binary64)
  | text (s : String)
  | list (items : List Document)
  | object (fields : List (String × Document))

namespace Document

/-- What a document is, as messages say it. -/
def describe : Document → String
  | .null => "null"
  | .boolean b =>
    let word := if b then "true" else "false"
    s!"boolean `{word}`"
  | .integer n =>
    let shown := String.ofList (integerText n)
    s!"integer `{shown}`"
  | .real x =>
    let shown := x.compactText
    s!"floating point `{shown}`"
  | .text s => s!"string {Text.quote s}"
  | .list _ => "sequence"
  | .object _ => "map"

/-- Why a document does not fit. -/
inductive Misfit where
  /-- A document of the wrong kind. -/
  | kind (found : Document) (expected : String)
  /-- An object that has no field, or more than one, where one is wanted. -/
  | fieldCount
  /-- A list that is too long. -/
  | length (count : Nat) (expected : String)
  /-- A word that is none of those allowed. -/
  | word (found : String) (allowed : List String)

/-- The wording of a misfit. -/
def Misfit.message : Misfit → String
  | .kind found expected => s!"invalid type: {found.describe}, expected {expected}"
  | .fieldCount => "invalid value: map, expected map with a single key"
  | .length count expected => s!"invalid length {count}, expected {expected}"
  | .word found allowed =>
    let shown := ", ".intercalate (allowed.map fun word => s!"`{word}`")
    s!"unknown variant `{found}`, expected one of {shown}"

/-- The text of a document that is one. -/
def asText : Document → Except Misfit String
  | .text s => .ok s
  | d => .error (.kind d "a string")

/-- The truth value of a document that is one. -/
def asBoolean : Document → Except Misfit Bool
  | .boolean b => .ok b
  | d => .error (.kind d "a boolean")

/-- Read a part of a document, which may be missing. -/
def readOr {α : Type} (read : Document → Except Misfit α) (missing : α) :
    Option Document → Except Misfit α
  | some d => read d
  | none => .ok missing

/-- The word of a document: a text, or the name of the only field of an object. That field has to
be null, but a word that is not allowed is the first thing wrong. -/
def asWord {α : Type} (parse? : String → Option α) (allowed : List String) :
    Document → Except Misfit α
  | .text s => known s
  | .object [(name, d)] => do
    let a ← known name
    match d with
    | .null => .ok a
    | d => .error (.kind d "unit")
  | .object _ => .error .fieldCount
  | d => .error (.kind d "string or map")
where
  /-- The meaning of a word, if it is allowed. -/
  known (s : String) : Except Misfit α :=
    match parse? s with
    | some a => .ok a
    | none => .error (.word s allowed)

end Document

end TripleIndex
