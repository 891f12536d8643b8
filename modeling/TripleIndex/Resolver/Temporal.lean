/-
  Resolvers for dates and dates with a time. A date is stored as its day number, a date with a
  time as its instant in microseconds.
-/
import TripleIndex.Calendar.Instant
import TripleIndex.Resolver.Numeric

namespace TripleIndex.Resolver

open Calendar (Date Instant)
open Numeral (integerText)
open Text (quote trim)

/-- The instant of a text. -/
def readInstant (data : String) : Except Error Instant :=
  match Instant.read? (trim data.toList) with
  | some i => .ok i
  | none =>
    .error (.invalidValue s!"Cannot parse dateTime: {String.ofList (trim data.toList)}")

/-- Dates with a time, stored as instants. -/
def dateTime : Resolver where
  datatype := some Xsd.dateTime
  marker := 0x07
  write data :=
    (readInstant data).map fun i => OrderedDigits.encodeInt64 (Int64.ofInt i.micros)
  read bytes := do
    let n ← OrderedDigits.decodeInt64 bytes
    match (⟨n.toInt⟩ : Instant).text? with
    | some cs => .ok (String.ofList cs)
    | none =>
      .error (.decode s!"dateTime out of range: {String.ofList (integerText n.toInt)}")

/-- The date of a text. -/
def readDate (data : String) : Except Error Date :=
  match Date.read (trim data.toList) with
  | .ok d => .ok d
  | .error e => .error (notOfType data "xsd:date" e.message)

/-- Dates, stored as day numbers. -/
def date : Resolver where
  datatype := some Xsd.date
  marker := 0x0B
  write data :=
    (readDate data).map fun d => OrderedDigits.encodeInt32 (Int32.ofInt d.dayNumber)
  read bytes := do
    let n ← OrderedDigits.decodeInt32 bytes
    match Date.ofDayNumber? n.toInt with
    | some d => .ok (String.ofList d.text)
    | none => .error (.decode s!"date out of range: {String.ofList (integerText n.toInt)}")

/-- The resolvers that every codec starts from. -/
def standard : List Resolver :=
  [resource, string, long, integer, double, dateTime, float, int, boolean, date]

end TripleIndex.Resolver
