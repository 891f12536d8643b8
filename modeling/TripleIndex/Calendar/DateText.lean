/-
  Dates in text, year first. A year outside 0 to 9999 carries its sign.
-/
import TripleIndex.Calendar.Date
import TripleIndex.Calendar.Scan

namespace TripleIndex.Calendar

open Numeral (padded)

/-- A year in at least four digits, signed outside 0 to 9999. -/
def yearText (year : Int) : List Char :=
  if 0 ≤ year ∧ year ≤ 9999 then padded 4 year.natAbs
  else (if year < 0 then '-' else '+') :: padded 4 year.natAbs

namespace Date

/-- Year, month and day, with hyphens between. -/
def text (d : Date) : List Char :=
  yearText d.year ++ '-' :: padded 2 d.month ++ '-' :: padded 2 d.day

/-- Read year, month and day. Whether the month has that day is left open. -/
def scan (year : Scan Int) (pair : Scan Nat) : Scan Date := fun cs => do
  let (year, cs) ← year cs
  let ((), cs) ← Scan.mark '-' cs
  let (month, cs) ← pair.within 1 12 cs
  let ((), cs) ← Scan.mark '-' cs
  let (day, cs) ← pair.within 1 31 cs
  .ok (⟨year, month, day⟩, cs)

/-- Read a date that is all of a text. -/
def read (cs : List Char) : Except Failure Date := do
  let (d, cs) ← scan Scan.year (Scan.loose 2) cs
  Scan.finished cs
  if d.Valid then .ok d else .error .outOfRange

end Date

end TripleIndex.Calendar
