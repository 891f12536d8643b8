/-
  Configuration of an index: the names of its tables, which layouts it keeps, and whether rows
  start with a hash.
-/
import TripleIndex.Layout

namespace TripleIndex

/-- How an index is set up. -/
structure Config where
  /-- What the table names of all layouts start with. -/
  tableStem : String
  /-- Whether the layouts that start with the context are kept too. -/
  contextTables : Bool
  /-- Whether every row starts with the hash of its anchor field. -/
  hashedKeys : Bool
  deriving DecidableEq

namespace Config

/-- What table names start with unless configured otherwise. -/
def defaultStem : String := "tristore_"

/-- The configuration with nothing set. -/
def default : Config :=
  ⟨defaultStem, false, false⟩

/-- The layouts that are kept, standard ones first. -/
def layouts (config : Config) : List Layout :=
  Layout.standard ++ if config.contextTables then Layout.contextFirst else []

/-- The name of the table of a layout. -/
def tableName (config : Config) (layout : Layout) : String :=
  config.tableStem ++ layout.name

end Config

end TripleIndex
