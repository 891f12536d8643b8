/-
  Resolvers. A resolver writes the values of one datatype as bytes in the order of the datatype,
  and reads them back in canonical form. The codec adds the marker, which names the resolver in
  stored objects.
-/
import TripleIndex.Error
import TripleIndex.Text.Utf8

namespace TripleIndex

/-- The encoding of one datatype, or of resources if there is no datatype. -/
structure Resolver where
  /-- The datatype of the literals it writes; `none` for resources. -/
  datatype : Option String
  /-- The byte that names the resolver in stored objects. -/
  marker : UInt8
  /-- The bytes of a text of the datatype. -/
  write : String → Except Error Bytes
  /-- The canonical text of bytes. -/
  read : Bytes → Except Error String

namespace Resolver

/-- Bytes read as text. -/
def readText (bytes : Bytes) : Except Error String :=
  match Text.Utf8.decode bytes with
  | .ok s => .ok s
  | .error e => .error (.decode e.message)

end Resolver

end TripleIndex
