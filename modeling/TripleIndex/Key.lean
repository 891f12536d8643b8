/-
  Row keys and the bounds of scans. A key is its fields joined by a delimiter. Bounds are half
  open; a delimiter and the ceiling byte after a key come after every key that extends it.
  The three bytes are part of the stored format.
-/
import TripleIndex.Hash.Sha256
import TripleIndex.Text.Hex
import TripleIndex.Text.Utf8

namespace TripleIndex

/-- A half-open interval of keys. -/
structure KeyInterval where
  start : Bytes
  stop : Bytes
  deriving DecidableEq

namespace KeyInterval

/-- Whether a key lies in the interval. -/
def contains (r : KeyInterval) (key : Bytes) : Bool :=
  r.start ≤ key ∧ key < r.stop

/-- Whether no key lies in the interval. -/
def isEmpty (r : KeyInterval) : Bool :=
  r.stop ≤ r.start

/-- The interval as diagnostics show it. -/
def display (r : KeyInterval) : String :=
  let shown (bytes : Bytes) : String := Text.quote (Text.Utf8.decodeLossy bytes)
  s!"ByteRange[{shown r.start}, {shown r.stop})"

end KeyInterval

/-- A range of one field, with its ends already encoded. -/
structure FieldRange where
  start : Bytes
  stop : Bytes
  startInclusive : Bool
  stopInclusive : Bool
  deriving DecidableEq

/-- Whether a field lies in the range. -/
def FieldRange.contains (r : FieldRange) (field : Bytes) : Bool :=
  (if r.startInclusive then r.start ≤ field else r.start < field)
    && (if r.stopInclusive then field ≤ r.stop else field < r.stop)

namespace Key

/-- Separates the fields of a key. -/
def delimiter : UInt8 := 0x00

/-- Separates the data of an object from its marker. -/
def markerDelimiter : UInt8 := 0x01

/-- Follows a delimiter to close an interval of keys. -/
def ceiling : UInt8 := 0xFF

/-- The hexadecimal SHA-256 of an anchor field, which spreads keys evenly. -/
def anchorHash (anchor : Bytes) : Bytes :=
  Text.Hex.encode (Hash.Sha256.digest anchor)

/-- The fields, with a delimiter between each two. -/
def join : List Bytes → Bytes
  | [] => []
  | [field] => field
  | field :: fields => field ++ delimiter :: join fields

/-- The bounds of all keys that start with the given fields, or, if these are `complete`, of the
key they make up. -/
def leadingBounds (fields : List Bytes) (complete : Bool) : KeyInterval :=
  let start := if complete then join fields else join fields ++ [delimiter]
  let stop := if complete then start ++ [delimiter, ceiling] else start ++ [ceiling]
  ⟨start, stop⟩

/-- The bounds of the keys with `front` in front, then a field of the range, then `back`. The
fields of `back` narrow an inclusive end only. -/
def spanBounds (front : List Bytes) (range : FieldRange) (back : List Bytes) : KeyInterval :=
  let head := if front = [] then [] else join front ++ [delimiter]
  let tail := if back = [] then [] else delimiter :: join back
  let start := head ++ range.start
    ++ (if range.startInclusive then tail else [delimiter, ceiling])
  let stop := head ++ range.stop
    ++ (if range.stopInclusive then tail ++ [delimiter, ceiling] else [])
  ⟨start, stop⟩

/-- The bytes before the first delimiter and those after it, if there is one. -/
def splitFirst? : Bytes → Option (Bytes × Bytes)
  | [] => none
  | b :: row =>
    if b = delimiter then some ([], row)
    else (splitFirst? row).map fun (field, rest) => (b :: field, rest)

/-- Exactly `n` fields of a key, the last of which keeps the rest of it. -/
def split? : Nat → Bytes → Option (List Bytes)
  | 0, _ => some []
  | 1, row => some [row]
  | n + 2, row =>
    match splitFirst? row with
    | none => none
    | some (field, rest) => (split? (n + 1) rest).map (field :: ·)

end Key

end TripleIndex
