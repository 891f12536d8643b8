/-
  Settings as documents: a configuration as an object of its three fields, a layout as its name.
  Fields that are missing keep their defaults, and fields of other names are passed over.
-/
import TripleIndex.Config
import TripleIndex.Document

namespace TripleIndex

/-- The layout of a document. Names are read as they are written, in lower case. -/
def Layout.ofDocument : Document → Except Document.Misfit Layout :=
  Document.asWord (fun s => all.find? fun l => l.name = s) (all.map name)

namespace Config

/-- The configuration of a document: an object, whose fields are read in order of their names, or
a list of the values. -/
def ofDocument : Document → Except Document.Misfit Config
  | .object fields => do
    let contextTables ←
      Document.readOr Document.asBoolean default.contextTables (fields.lookup "context_layouts")
    let hashedKeys ←
      Document.readOr Document.asBoolean default.hashedKeys (fields.lookup "hashed_rows")
    let tableStem ← Document.readOr Document.asText default.tableStem (fields.lookup "table_prefix")
    .ok ⟨tableStem, contextTables, hashedKeys⟩
  | .list items => do
    let tableStem ← Document.readOr Document.asText default.tableStem items[0]?
    let contextTables ← Document.readOr Document.asBoolean default.contextTables items[1]?
    let hashedKeys ← Document.readOr Document.asBoolean default.hashedKeys items[2]?
    if items.length ≤ 3 then .ok ⟨tableStem, contextTables, hashedKeys⟩
    else .error (.length items.length "fewer elements in array")
  | d => .error (.kind d "struct IndexConfig")

/-- The document of a configuration. -/
def toDocument (config : Config) : Document :=
  .object [
    ("table_prefix", .text config.tableStem),
    ("context_layouts", .boolean config.contextTables),
    ("hashed_rows", .boolean config.hashedKeys)]

end Config

end TripleIndex
