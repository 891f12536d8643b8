/-
  Instants, counted in microseconds from 1970-01-01T00:00:00Z. A text may give its offset from
  UTC in one of two notations or none, which means UTC; finer fractions are cut off.
-/
import TripleIndex.Calendar.DateText

namespace TripleIndex.Calendar

open Numeral (padded)
open Text (isBlank)

/-- The number of the day 1970-01-01. -/
def epochDay : Int := 719163

/-- A time of day. Second 60 is a leap second. -/
structure Clock where
  hour : Nat
  minute : Nat
  second : Nat
  nanosecond : Nat
  deriving DecidableEq

namespace Clock

/-- Seconds since midnight. -/
def seconds (t : Clock) : Int :=
  t.hour * 3600 + t.minute * 60 + t.second

/-- Read hours, minutes and seconds, with a fraction if there is one. -/
def scan (pair : Scan Nat) : Scan Clock := fun cs => do
  let (hour, cs) ← pair.within 0 23 cs
  let ((), cs) ← Scan.mark ':' cs
  let (minute, cs) ← pair.within 0 59 cs
  let ((), cs) ← Scan.mark ':' cs
  let (second, cs) ← pair.within 0 60 cs
  let (nanosecond, cs) ← Scan.fraction cs
  .ok (⟨hour, minute, second, nanosecond⟩, cs)

end Clock

/-- Read a numeric offset in seconds east of UTC, with `separator` between hours and minutes. -/
def scanOffset (separator : Scan Unit) : Scan Int := fun cs => do
  let (east, cs) ←
    (match cs with
    | '+' :: cs => .ok (true, cs)
    | '-' :: cs => .ok (false, cs)
    | '\u2212' :: cs => .ok (false, cs)
    | [] => .error .tooShort
    | _ => .error .invalid)
  let (hours, cs) ← (Scan.fixed 2).within 0 23 cs
  let ((), cs) ← separator cs
  let (minutes, cs) ← (Scan.fixed 2).within 0 59 cs
  let seconds : Int := hours * 3600 + minutes * 60
  .ok (if east then seconds else -seconds, cs)

/-- Read an offset of the internet notation: `Z`, or hours and minutes with a colon. -/
def scanInternetOffset : Scan Int := fun cs =>
  match cs with
  | 'Z' :: cs => .ok (0, cs)
  | 'z' :: cs => .ok (0, cs)
  | cs => scanOffset (Scan.mark ':') cs

/-- Read an offset of the basic notation: blanks in front, colons and blanks between. -/
def scanBasicOffset : Scan Int := fun cs =>
  scanOffset (fun cs => .ok ((), cs.dropWhile fun c => c == ':' || isBlank c)) (Text.trimStart cs)

/-- The letter or space between date and time in the internet notation. -/
def scanInternetSeparator : Scan Unit := fun cs =>
  match cs with
  | [] => .error .tooShort
  | c :: cs => if c = 'T' ∨ c = 't' ∨ c = ' ' then .ok ((), cs) else .error .invalid

/-- A moment, in microseconds since the epoch. -/
structure Instant where
  micros : Int
  deriving DecidableEq

namespace Instant

/-- The moment of a local date and time `offset` seconds east of UTC. The day in UTC has to be
one that can be stored; a leap second belongs to the day that it ends. -/
def ofLocal? (d : Date) (t : Clock) (offset : Int) : Option Instant :=
  let midnight := (d.dayNumber - epochDay) * 86400 - offset
  let lastSecond := midnight + ({ t with second := min t.second 59 } : Clock).seconds
  if d.Valid ∧ (Date.ofDayNumber? (lastSecond / 86400 + epochDay)).isSome then
    some ⟨(midnight + t.seconds) * 1000000 + (t.nanosecond / 1000 : Nat)⟩
  else none

/-- Read a date and time in the internet notation: fixed widths and an offset. -/
def scanInternet : Scan (Date × Clock × Int) := fun cs => do
  let (d, cs) ←
    Date.scan (fun cs => (Scan.fixed 4 cs).map fun (n, cs) => ((n : Int), cs)) (Scan.fixed 2) cs
  let ((), cs) ← scanInternetSeparator cs
  let (t, cs) ← Clock.scan (Scan.fixed 2) cs
  let (offset, cs) ← scanInternetOffset cs
  .ok ((d, t, offset), cs)

/-- Read a date and time with free widths, followed by an offset that `zone` reads. -/
def scanLoose (zone : Scan Int) : Scan (Date × Clock × Int) := fun cs => do
  let (d, cs) ← Date.scan Scan.year (Scan.loose 2) cs
  let ((), cs) ← Scan.mark 'T' cs
  let (t, cs) ← Clock.scan (Scan.loose 2) cs
  let (offset, cs) ← zone cs
  .ok ((d, t, offset), cs)

/-- The moment that all of a text writes in one notation. -/
def readAs? (style : Scan (Date × Clock × Int)) (cs : List Char) : Option Instant :=
  match style cs with
  | .ok ((d, t, offset), []) => ofLocal? d t offset
  | _ => none

/-- The moment that a text writes: in the internet notation, with a basic offset, or in UTC. -/
def read? (cs : List Char) : Option Instant :=
  (readAs? scanInternet cs).or
    ((readAs? (scanLoose scanBasicOffset) cs).or
      (readAs? (scanLoose fun cs => .ok (0, cs)) cs))

/-- The digits of a fraction of a second: none, three or six. -/
def fractionText (micros : Nat) : List Char :=
  if micros = 0 then []
  else if micros % 1000 = 0 then '.' :: padded 3 (micros / 1000)
  else '.' :: padded 6 micros

/-- The moment in UTC, if its day can be stored. -/
def text? (i : Instant) : Option (List Char) :=
  let seconds := i.micros / 1000000
  let time := (seconds % 86400).toNat
  (Date.ofDayNumber? (seconds / 86400 + epochDay)).map fun d =>
    d.text ++ 'T' :: padded 2 (time / 3600) ++ ':' :: padded 2 (time / 60 % 60)
      ++ ':' :: padded 2 (time % 60) ++ fractionText (i.micros % 1000000).toNat ++ ['Z']

end Instant

end TripleIndex.Calendar
