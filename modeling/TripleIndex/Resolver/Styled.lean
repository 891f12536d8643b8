/-
  Resolvers for further datatypes whose texts are stored as they are, with a fixed ending, in
  upper case, or not at all.
-/
import TripleIndex.Resolver.Basic

namespace TripleIndex.Resolver

/-- How a further datatype writes its texts. -/
inductive Style where
  /-- The text, and a fixed ending. -/
  | ending (bytes : Bytes)
  /-- The text with ASCII letters in upper case. -/
  | upper
  /-- Every text is refused. -/
  | refusing
  deriving DecidableEq

/-- The resolver of a datatype in a style. -/
def styled (datatype : Option String) (marker : UInt8) (style : Style) : Resolver where
  datatype := datatype
  marker := marker
  write data :=
    match style with
    | .ending bytes => .ok (Text.Utf8.encode data ++ bytes)
    | .upper => .ok (Text.Utf8.encode (String.ofList (data.toList.map Char.toUpper)))
    | .refusing => .error (.invalidValue s!"custom: {data}")
  read bytes :=
    match Text.Utf8.decode bytes with
    | .ok s => .ok s
    | .error _ => .error (.decode "custom: bad utf8")

end TripleIndex.Resolver
