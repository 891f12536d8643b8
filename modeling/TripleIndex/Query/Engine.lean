/-
  Queries: the first layout that answers a pattern, or a given one, is planned and scanned, and
  its rows are read back as statements.
-/
import TripleIndex.Cursor.Statements
import TripleIndex.Catalog
import TripleIndex.Store.Scanner

namespace TripleIndex

/-- What queries need apart from the store. -/
structure Engine where
  catalog : Catalog
  codec : Codec
  config : Config

namespace Engine

variable {ω σ : Type} [Scanner ω σ]

/-- The engine of a configuration. -/
def ofConfig (config : Config) (c : Codec) : Engine :=
  ⟨Catalog.ofConfig config, c, config⟩

/-- How the engine reads rows. -/
def format (engine : Engine) : RowFormat :=
  ⟨engine.codec, engine.config.hashedKeys⟩

/-- The statements of a layout that match a pattern. -/
def queryIn (engine : Engine) (store : ω) (layout : Layout) (p : Pattern) :
    Except QueryError (Statements σ) × ω :=
  match engine.catalog.planner? layout with
  | none => (.error (.core (.unsupportedPattern layout "layout is not registered")), store)
  | some planner =>
    match planner.plan engine.codec p with
    | .error e => (.error (.core e), store)
    | .ok plan =>
      match Scanner.scan store plan with
      | (.error e, store) => (.error (.core e), store)
      | (.ok rows, store) =>
        let residual := if 0 < p.countRanges then some p else none
        (.ok ⟨rows, layout, engine.format, residual, false⟩, store)

/-- The statements that match a pattern, from the first layout that answers it. -/
def query (engine : Engine) (store : ω) (p : Pattern) : Except QueryError (Statements σ) × ω :=
  match engine.catalog.answering p with
  | .error e => (.error (.core e), store)
  | .ok (layout, _) => engine.queryIn store layout p

end Engine

end TripleIndex
