/-
  Patterns: for subject, predicate and object nothing, a value or a range of values; for the
  context nothing or a value.
-/
import TripleIndex.Range
import TripleIndex.Statement

namespace TripleIndex

/-- What a pattern asks of one position. -/
inductive Term where
  | unbound
  | scalar (v : Value)
  | range (r : ValueRange)
  deriving DecidableEq

namespace Term

/-- Whether the term asks anything. -/
def isBound : Term → Bool
  | .unbound => false
  | _ => true

/-- Whether the term is a range. -/
def isRange : Term → Bool
  | .range _ => true
  | _ => false

/-- The value of a scalar term. -/
def scalar? : Term → Option Value
  | .scalar v => some v
  | _ => none

/-- The range of a range term. -/
def range? : Term → Option ValueRange
  | .range r => some r
  | _ => none

/-- Whether a value at a position is what the term asks for. Values match by their encodings,
so that two texts of one number match; a value of another type never matches. -/
def matches? (t : Term) (c : Codec) (position : Position) (v : Value) : Except Error Bool :=
  match t with
  | .unbound => .ok true
  | .scalar w =>
    if w.comparable v then do
      let wanted ← c.encodeField position w
      let found ← c.encodeField position v
      .ok (wanted = found)
    else .ok false
  | .range r => r.contains c position v

/-- The term as messages show it. -/
def display : Term → String
  | .unbound => "?"
  | .scalar v => v.display
  | .range r => r.display

end Term

/-- What a query asks of a statement. -/
structure Pattern where
  subject : Term
  predicate : Term
  object : Term
  context : Option Value
  deriving DecidableEq

namespace Pattern

/-- The pattern that asks nothing. -/
def any : Pattern :=
  ⟨.unbound, .unbound, .unbound, none⟩

/-- The pattern of one predicate. -/
def ofPredicate (predicate : Value) : Pattern :=
  { any with predicate := .scalar predicate }

/-- The pattern of one predicate and one object. -/
def ofPredicateObject (predicate object : Value) : Pattern :=
  { any with predicate := .scalar predicate, object := .scalar object }

/-- The pattern in a named graph; an empty name asks nothing. -/
def inContext (p : Pattern) (context : Value) : Pattern :=
  { p with context := if context.data = "" then none else some context }

/-- What the pattern asks of a position. -/
def term (p : Pattern) : Position → Term
  | .subject => p.subject
  | .predicate => p.predicate
  | .object => p.object
  | .context =>
    match p.context with
    | some context => .scalar context
    | none => .unbound

/-- The number of positions with a range. -/
def countRanges (p : Pattern) : Nat :=
  [p.subject, p.predicate, p.object].countP Term.isRange

/-- Whether a statement is what the pattern asks for. The context is compared first and as it
is; then the terms in order, and a term past the first that fails is not looked at. -/
def matches? (p : Pattern) (c : Codec) (s : Statement) : Except Error Bool :=
  if p.context.isSome ∧ p.context ≠ s.context then .ok false
  else do
    if ← p.subject.matches? c .subject s.subject then
      if ← p.predicate.matches? c .predicate s.predicate then
        p.object.matches? c .object s.object
      else .ok false
    else .ok false

/-- The pattern as messages show it. -/
def display (p : Pattern) : String :=
  let triple := s!"{p.subject.display} {p.predicate.display} {p.object.display}"
  match p.context with
  | some context => s!"({triple} {context.display})"
  | none => s!"({triple})"

end Pattern

end TripleIndex
