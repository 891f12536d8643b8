/-
  Ranges of values at one position. A range keeps its ends as given; `ordered` orders them by
  their encodings, and membership compares encodings.
-/
import TripleIndex.Codec

namespace TripleIndex

/-- The values between two ends of one type. -/
structure ValueRange where
  start : Value
  stop : Value
  startInclusive : Bool
  stopInclusive : Bool
  deriving DecidableEq

namespace ValueRange

/-- The range with both ends included. -/
def closed (start stop : Value) : ValueRange :=
  ⟨start, stop, true, true⟩

/-- The resources from a first one on. -/
def onward (start : Value) : ValueRange :=
  closed start Value.topResource

/-- The range without its first end. -/
def openStart (r : ValueRange) : ValueRange :=
  { r with startInclusive := false }

/-- The range without its last end. -/
def openStop (r : ValueRange) : ValueRange :=
  { r with stopInclusive := false }

/-- The range with its ends, and whether they count, the other way round. -/
def reversed (r : ValueRange) : ValueRange :=
  ⟨r.stop, r.start, r.stopInclusive, r.startInclusive⟩

/-- Whether both ends are one value. -/
def isSingle (r : ValueRange) : Bool :=
  r.start = r.stop

/-- The range as messages show it, with a round bracket at an excluded end. -/
def display (r : ValueRange) : String :=
  let left := if r.startInclusive then "[" else "("
  let right := if r.stopInclusive then "]" else ")"
  s!"{left}{r.start.display}, {r.stop.display}{right}"

/-- The range with its ends in the order of their encodings. -/
def ordered (r : ValueRange) (c : Codec) : Except Error ValueRange := do
  if r.start.comparable r.stop then
    let start ← c.encodeObject r.start
    let stop ← c.encodeObject r.stop
    .ok (if stop < start then r.reversed else r)
  else
    .error (.invalidRange
      s!"endpoints differ in type: {r.start.display} and {r.stop.display}")

/-- The range with its ends in order and encoded for a position. -/
def encode (r : ValueRange) (c : Codec) (position : Position) : Except Error FieldRange := do
  let r ← r.ordered c
  let start ← c.encodeField position r.start
  let stop ← c.encodeField position r.stop
  .ok ⟨start, stop, r.startInclusive, r.stopInclusive⟩

/-- Whether a value at a position lies in the range. A value of another type never does, and is
not encoded. -/
def contains (r : ValueRange) (c : Codec) (position : Position) (v : Value) :
    Except Error Bool := do
  if v.comparable r.start then
    let bounds ← r.encode c position
    let field ← c.encodeField position v
    .ok (bounds.contains field)
  else .ok false

end ValueRange

end TripleIndex
