/-
  Statements: subject, predicate and object, in the default graph or a named one, with the
  visibility and timestamp that the store keeps beside them. An empty context is the default
  graph and an empty visibility is none, since rows cannot tell them apart.
-/
import TripleIndex.Bytes
import TripleIndex.Value

namespace TripleIndex

/-- A statement with its graph and metadata. -/
structure Statement where
  subject : Value
  predicate : Value
  object : Value
  context : Option Value
  visibility : Option Bytes
  timestamp : Option UInt64
  /-- The default graph has no name. -/
  named : ∀ v ∈ context, v.data ≠ ""
  /-- No visibility is written as none. -/
  guarded : ∀ bytes ∈ visibility, bytes ≠ []
  deriving DecidableEq

namespace Statement

/-- A statement in the default graph, without metadata. -/
def triple (subject predicate object : Value) : Statement :=
  ⟨subject, predicate, object, none, none, none, nofun, nofun⟩

/-- The statement in a named graph, or in the default graph if the name is empty. -/
def inContext (s : Statement) (context : Value) : Statement :=
  if h : context.data = "" then { s with context := none, named := nofun }
  else { s with context := some context, named := by rintro _ ⟨⟩; exact h }

/-- The statement in a named graph, or in the default graph. -/
def inContext? (s : Statement) : Option Value → Statement
  | some context => s.inContext context
  | none => { s with context := none, named := nofun }

/-- The statement with a visibility, or without one if it is empty. -/
def visibleTo (s : Statement) (visibility : Bytes) : Statement :=
  if h : visibility = [] then { s with visibility := none, guarded := nofun }
  else { s with visibility := some visibility, guarded := by rintro _ ⟨⟩; exact h }

/-- The statement with a timestamp. -/
def stamped (s : Statement) (timestamp : UInt64) : Statement :=
  { s with timestamp := some timestamp }

/-- The statement as messages show it, its graph last. -/
def display (s : Statement) : String :=
  let triple := s!"{s.subject.display} {s.predicate.display} {s.object.display}"
  match s.context with
  | some context => s!"{triple} {context.display}"
  | none => triple

end Statement

end TripleIndex
