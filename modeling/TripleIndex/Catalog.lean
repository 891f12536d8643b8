/-
  The planners of an index, one for each layout that is kept, in the order in which they are tried.
-/
import TripleIndex.Config
import TripleIndex.Planner

namespace TripleIndex

/-- The planners of the layouts that are kept. -/
structure Catalog where
  planners : List Planner
  deriving DecidableEq

namespace Catalog

/-- A planner for each layout, at its first occurrence. -/
def ofLayouts (layouts : List Layout) (hashedKeys : Bool) : Catalog :=
  ⟨layouts.eraseDups.map fun layout => ⟨layout, hashedKeys⟩⟩

/-- The planners of a configuration. -/
def ofConfig (config : Config) : Catalog :=
  ofLayouts config.layouts config.hashedKeys

/-- The layouts that are kept. -/
def layouts (catalog : Catalog) : List Layout :=
  catalog.planners.map Planner.layout

/-- The planner of a layout. -/
def planner? (catalog : Catalog) (layout : Layout) : Option Planner :=
  catalog.planners.find? fun planner => planner.layout = layout

/-- The layouts of which one scan answers a pattern; at least one, or an error. -/
def answering (catalog : Catalog) (p : Pattern) : Except Error (Layout × List Layout) :=
  match (catalog.planners.filter fun planner => planner.answers p).map Planner.layout with
  | [] => .error (.noApplicableLayout p.display)
  | layout :: layouts => .ok (layout, layouts)

end Catalog

end TripleIndex
