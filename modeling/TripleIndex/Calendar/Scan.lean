/-
  Reading the fields of dates and times from the front of a text. Each reader returns its field
  and the rest of the text, or the first failure.
-/
import TripleIndex.Numeral.Digits
import TripleIndex.Text.Blank

namespace TripleIndex.Calendar

open Numeral (isDigit ofDigits)
open Text (trimStart)

/-- Why a text is not a date or time. -/
inductive Failure where
  /-- A field outside its range, or a day that its month lacks. -/
  | outOfRange
  /-- A character that cannot stand where it does. -/
  | invalid
  /-- The text ends before the format does. -/
  | tooShort
  /-- The format ends before the text does. -/
  | trailing
  deriving DecidableEq

/-- The wording of a failure. -/
def Failure.message : Failure → String
  | .outOfRange => "input is out of range"
  | .invalid => "input contains invalid characters"
  | .tooShort => "premature end of input"
  | .trailing => "trailing input"

/-- A reader of one field. -/
abbrev Scan (α : Type) := List Char → Except Failure (α × List Char)

namespace Scan

/-- From `least` to `most` digits. -/
def number (least most : Nat) : Scan Nat := fun cs =>
  let ds := (cs.take most).takeWhile isDigit
  if cs.length < least then .error .tooShort
  else if ds.length < least then .error .invalid
  else .ok (ofDigits ds, cs.drop ds.length)

/-- Exactly `width` digits. -/
def fixed (width : Nat) : Scan Nat :=
  number width width

/-- Blanks, then up to `width` digits. -/
def loose (width : Nat) : Scan Nat := fun cs =>
  number 1 width (trimStart cs)

/-- A number from `low` to `high`. -/
def within (low high : Nat) (scan : Scan Nat) : Scan Nat := fun cs => do
  let (n, cs) ← scan cs
  if low ≤ n ∧ n ≤ high then .ok (n, cs) else .error .outOfRange

/-- One given character. -/
def mark (c : Char) : Scan Unit := fun cs =>
  match cs with
  | [] => .error .tooShort
  | d :: cs => if d = c then .ok ((), cs) else .error .invalid

/-- A year: after a sign any number of digits, without one at most four. -/
def year : Scan Int := fun cs => do
  let (n, cs) ←
    (match trimStart cs with
    | '-' :: cs => (number 1 cs.length cs).map fun (n, cs) => (-(n : Int), cs)
    | '+' :: cs => (number 1 cs.length cs).map fun (n, cs) => ((n : Int), cs)
    | cs => (number 1 4 cs).map fun (n, cs) => ((n : Int), cs))
  if Int32.minValue.toInt ≤ n ∧ n ≤ Int32.maxValue.toInt then .ok (n, cs) else .error .outOfRange

/-- Nanoseconds from a decimal fraction, if there is one. Digits past the ninth are dropped. -/
def fraction : Scan Nat := fun cs =>
  match cs with
  | '.' :: cs => do
    let (n, rest) ← number 1 9 cs
    .ok (n * Nat.pow 10 (9 - (cs.length - rest.length)), rest.dropWhile isDigit)
  | cs => .ok (0, cs)

/-- Nothing but the end of the text. -/
def finished (cs : List Char) : Except Failure Unit :=
  if cs = [] then .ok () else .error .trailing

end Scan

end TripleIndex.Calendar
