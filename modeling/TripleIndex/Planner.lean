/-
  Planning: whether one scan of a layout answers a pattern, and which keys that scan covers. The
  bound positions have to be the first of the layout, and only the last of them may be a range.
  With hashed keys the anchor has to be a value, since its hash stands in front of the key.
-/
import TripleIndex.Pattern

namespace TripleIndex

/-- What the store needs to run a scan. -/
structure ScanPlan where
  layout : Layout
  range : KeyInterval
  /-- The only column family to keep; `none` keeps all. -/
  family : Option Bytes
  deriving DecidableEq

/-- Why one scan of a layout does not answer a pattern. -/
inductive Refusal where
  | leadingUnbound (position : Position)
  | notResource (position : Position) (v : Value)
  | mixedRange (position : Position) (r : ValueRange)
  | literalRange (position : Position) (r : ValueRange)
  | afterGap (position gap : Position)
  | afterRange (position range : Position)
  | hashedAnchorRange (position : Position)
  deriving DecidableEq

/-- The wording of a refusal. -/
def Refusal.message : Refusal → String
  | .leadingUnbound p => s!"leading field {p.name} is unbound"
  | .notResource p v => s!"{p.name} must be a resource, got {v.display}"
  | .mixedRange p r => s!"{p.name} range mixes types: {r.display}"
  | .literalRange p r => s!"{p.name} range must span resources: {r.display}"
  | .afterGap p gap => s!"{p.name} is bound after unbound {gap.name}"
  | .afterRange p range => s!"{p.name} is bound after range field {range.name}"
  | .hashedAnchorRange p => s!"anchor {p.name} range cannot span hashed rows"

/-- Planning for one layout. -/
structure Planner where
  layout : Layout
  hashedKeys : Bool
  deriving DecidableEq

namespace Planner

/-- Terms that no codec encodes at a position. -/
def shapeRefusal? (position : Position) : Term → Option Refusal
  | .unbound => none
  | .scalar v =>
    if position ≠ .object ∧ !v.isResource then some (.notResource position v) else none
  | .range r =>
    if !r.start.comparable r.stop then some (.mixedRange position r)
    else if position ≠ .object ∧ !r.start.isResource then some (.literalRange position r)
    else none

/-- What has been met on the way through the positions of a layout. -/
structure Progress where
  bound : Nat
  gap : Option Position
  range : Option Position

/-- Take one more position of the layout into account. -/
def Progress.advance (hashedKeys : Bool) (p : Pattern) (seen : Progress) (position : Position) :
    Except Refusal Progress :=
  let term := p.term position
  if term.isBound then
    match shapeRefusal? position term with
    | some refusal => .error refusal
    | none =>
      match seen.gap, seen.range with
      | some gap, _ => .error (.afterGap position gap)
      | none, some range => .error (.afterRange position range)
      | none, none =>
        if term.isRange then
          if seen.bound = 0 ∧ hashedKeys then .error (.hashedAnchorRange position)
          else .ok { seen with bound := seen.bound + 1, range := some position }
        else .ok { seen with bound := seen.bound + 1 }
  else if seen.bound = 0 then .error (.leadingUnbound position)
  else .ok { seen with gap := seen.gap.or (some position) }

/-- The number of bound positions at the front of the layout, or why they are not enough. -/
def boundFields (planner : Planner) (p : Pattern) : Except Refusal Nat :=
  (planner.layout.fields.foldlM (Progress.advance planner.hashedKeys p) ⟨0, none, none⟩).map
    Progress.bound

/-- Whether one scan of the layout answers the pattern, errors of the codec apart. -/
def answers (planner : Planner) (p : Pattern) : Bool :=
  match planner.boundFields p with
  | .ok _ => true
  | .error _ => false

/-- The bounds of the keys whose fields after `front` match the terms at the given positions. -/
def boundsFrom (c : Codec) (p : Pattern) (complete hashedKeys : Bool) (front : List Bytes) :
    List Position → Except Error KeyInterval
  | [] => .ok (Key.leadingBounds front complete)
  | position :: positions =>
    match p.term position with
    | .unbound => .ok (Key.leadingBounds front complete)
    | .scalar v => do
      let field ← c.encodeField position v
      let hash := if front = [] ∧ hashedKeys then [Key.anchorHash field] else []
      boundsFrom c p complete hashedKeys (front ++ hash ++ [field]) positions
    | .range r => do
      let range ← r.encode c position
      .ok (Key.spanBounds front range [])

/-- The keys that a scan for the pattern covers. -/
def interval (planner : Planner) (c : Codec) (p : Pattern) : Except Error KeyInterval :=
  match planner.boundFields p with
  | .error refusal => .error (.unsupportedPattern planner.layout refusal.message)
  | .ok bound =>
    let fields := planner.layout.fields
    boundsFrom c p (bound = fields.length) planner.hashedKeys [] (fields.take bound)

/-- The scan for the pattern. A context that the key leaves out is asked of the column family. -/
def plan (planner : Planner) (c : Codec) (p : Pattern) : Except Error ScanPlan := do
  let range ← planner.interval c p
  let family ←
    (match p.context, planner.layout.isContextFirst with
    | some context, false => (c.encodeField .context context).map some
    | _, _ => .ok none)
  .ok ⟨planner.layout, range, family⟩

end Planner

end TripleIndex
