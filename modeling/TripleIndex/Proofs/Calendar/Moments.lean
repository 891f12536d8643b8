/-
  Which moments are read. The day of a moment in UTC is one that can be stored, since a text is
  refused otherwise (`Instant.inside_of_read?`). The one exception is a leap second at the end of
  the last of those days: it counts as part of its day but is kept as the second after it, whose
  day cannot be stored. A moment is the time in UTC that the fields of its text give, cut off to
  whole microseconds (`Instant.fields?_of_read?`, `Instant.micros_of_ofLocal?`).
-/
import Mathlib
import TripleIndex.Proofs.Calendar.Texts

namespace TripleIndex.Calendar

open Outcome (bind_eq_ok)

/-- The first second behind the days that can be stored, counted from the epoch. -/
def endSecond : Int :=
  (daysBeforeYear (lastYear + 1) + 1 - epochDay) * 86400

/-! ## Fields -/

namespace Scan

variable {cs rest : List Char} {n : Nat}

/-- A number is below the power of ten of as many digits as were read. -/
theorem number_lt {least most : Nat} (h : number least most cs = .ok (n, rest)) :
    cs.length - rest.length ≤ most ∧ n < 10 ^ (cs.length - rest.length) := by
  unfold number at h
  simp only at h
  generalize hds : (cs.take most).takeWhile Numeral.isDigit = ds at h
  have front : ds <+: cs.take most := hds ▸ List.takeWhile_prefix _
  have few : ds.length ≤ most := Nat.le_trans front.length_le (List.length_take_le most cs)
  have whole : ds.length ≤ cs.length := (front.trans (List.take_prefix most cs)).length_le
  split at h
  · cases h
  · split at h
    · cases h
    · obtain ⟨rfl, rfl⟩ := Prod.mk.inj (Except.ok.inj h)
      rw [List.length_drop, Nat.sub_sub_self whole]
      exact ⟨few, Numeral.ofDigits_lt ds⟩

/-- A fraction of a second is less than a second. -/
theorem fraction_lt (h : fraction cs = .ok (n, rest)) : n < 1000000000 := by
  unfold fraction at h
  split at h
  · next cs =>
    obtain ⟨⟨m, rest⟩, read, h⟩ := bind_eq_ok.mp h
    obtain ⟨rfl, rfl⟩ := Prod.mk.inj (Except.ok.inj h)
    obtain ⟨few, small⟩ := number_lt read
    generalize cs.length - rest.length = k at few small ⊢
    calc m * 10 ^ (9 - k)
      _ < 10 ^ k * 10 ^ (9 - k) := Nat.mul_lt_mul_of_pos_right small (Nat.pow_pos (by decide))
      _ = 10 ^ 9 := by rw [← pow_add, Nat.add_sub_cancel' few]
  · obtain ⟨rfl, _⟩ := Prod.mk.inj (Except.ok.inj h)
    decide

theorem within_bounds {scan : Scan Nat} {low high : Nat}
    (h : within low high scan cs = .ok (n, rest)) : low ≤ n ∧ n ≤ high := by
  obtain ⟨⟨m, rest⟩, _, h⟩ := bind_eq_ok.mp h
  simp only at h
  split at h
  · next bounds =>
    obtain ⟨rfl, _⟩ := Prod.mk.inj (Except.ok.inj h)
    exact bounds
  · cases h

end Scan

/-- Whether the fields below the minute are in their ranges, with room for a leap second. -/
def Clock.Bounded (t : Clock) : Prop :=
  t.second ≤ 60 ∧ t.nanosecond < 1000000000

theorem Clock.bounded_of_scan {pair : Scan Nat} {cs rest : List Char} {t : Clock}
    (h : Clock.scan pair cs = .ok (t, rest)) : t.Bounded := by
  obtain ⟨_, _, h⟩ := bind_eq_ok.mp h
  obtain ⟨_, _, h⟩ := bind_eq_ok.mp h
  obtain ⟨_, _, h⟩ := bind_eq_ok.mp h
  obtain ⟨_, _, h⟩ := bind_eq_ok.mp h
  obtain ⟨_, second, h⟩ := bind_eq_ok.mp h
  obtain ⟨_, nanosecond, h⟩ := bind_eq_ok.mp h
  obtain ⟨rfl, _⟩ := Prod.mk.inj (Except.ok.inj h)
  exact ⟨(Scan.within_bounds second).2, Scan.fraction_lt nanosecond⟩

/-! ## Days -/

/-- The days that can be stored are those from the first of the first year to the last of the last
one. -/
theorem Date.valid_ofDayNumber_iff {n : Int} : (Date.ofDayNumber n).Valid ↔
    daysBeforeYear firstYear < n ∧ n ≤ daysBeforeYear (lastYear + 1) := by
  obtain ⟨low, high⟩ := yearOfDay_spec n
  have year : (Date.ofDayNumber n).year = yearOfDay n := rfl
  constructor
  · rintro ⟨⟨first, last⟩, _⟩
    rw [year] at first last
    have early := daysBeforeYear_mono first
    have late := daysBeforeYear_mono (Int.add_le_add_right last 1)
    omega
  · rintro ⟨first, last⟩
    refine ⟨⟨?_, ?_⟩, (Date.dayNumber_ofDayNumber n).1⟩
    · by_contra before
      have := daysBeforeYear_mono (show yearOfDay n + 1 ≤ firstYear by omega)
      omega
    · by_contra after
      have := daysBeforeYear_mono (show lastYear + 1 ≤ yearOfDay n by omega)
      omega

theorem Date.valid_of_isSome {n : Int} (h : (Date.ofDayNumber? n).isSome = true) :
    (Date.ofDayNumber n).Valid := by
  unfold Date.ofDayNumber? at h
  simp only at h
  split at h
  · assumption
  · cases h

/-! ## Moments -/

namespace Instant

variable {i : Instant} {cs : List Char}

theorem valid_date_iff : i.date.Valid ↔
    daysBeforeYear firstYear < i.micros / 1000000 / 86400 + epochDay
      ∧ i.micros / 1000000 / 86400 + epochDay ≤ daysBeforeYear (lastYear + 1) :=
  Date.valid_ofDayNumber_iff

/-- The second behind the days that can be stored is on none of them. -/
theorem not_valid_date (h : i.micros / 1000000 = endSecond) : ¬ i.date.Valid := by
  rw [valid_date_iff, h]
  decide

/-- A moment on a day that cannot be stored has no text. -/
theorem text?_eq_none (h : ¬ i.date.Valid) : i.text? = none := by
  unfold text? Date.ofDayNumber?
  have h' : ¬ (Date.ofDayNumber (i.micros / 1000000 / 86400 + epochDay)).Valid := h
  simp only [if_neg h', Option.map_none]

/-- A local time whose day in UTC can be stored is a moment of such a day, or a leap second at the
end of the last one. -/
theorem inside_of_ofLocal? {d : Date} {t : Clock} {offset : Int} (bounded : t.Bounded)
    (h : ofLocal? d t offset = some i) : i.date.Valid ∨ i.micros / 1000000 = endSecond := by
  obtain ⟨second, nanosecond⟩ := bounded
  unfold ofLocal? at h
  simp only at h
  split at h
  · next stored =>
    have day := Date.valid_of_isSome stored.2
    rw [Date.valid_ofDayNumber_iff] at day
    -- all that counts is the start of the minute and the second in it
    obtain ⟨start, minute⟩ : ∃ start : Int, start
        = (d.dayNumber - epochDay) * 86400 - offset + (t.hour * 3600 + t.minute * 60) := ⟨_, rfl⟩
    have capped : ({ t with second := min t.second 59 } : Clock).seconds
        = t.hour * 3600 + t.minute * 60 + (min t.second 59 : Nat) := rfl
    have moment : i.micros / 1000000 = start + t.second := by
      rw [← Option.some.inj h, minute, Clock.seconds]
      simp only
      omega
    rw [capped, ← Int.add_assoc, ← minute] at day
    rw [valid_date_iff, moment, endSecond]
    omega
  · cases h

/-- Every notation gives times with a second of at most 60. -/
theorem inside_of_readAs? {style : Scan (Date × Clock × Int)}
    (bounded : ∀ {cs rest x}, style cs = .ok (x, rest) → x.2.1.Bounded)
    (h : readAs? style cs = some i) : i.date.Valid ∨ i.micros / 1000000 = endSecond := by
  unfold readAs? at h
  split at h
  · next read => exact inside_of_ofLocal? (bounded read) h
  · cases h

theorem bounded_of_scanInternet {rest : List Char} {x : Date × Clock × Int}
    (h : scanInternet cs = .ok (x, rest)) : x.2.1.Bounded := by
  obtain ⟨_, _, h⟩ := bind_eq_ok.mp h
  obtain ⟨_, _, h⟩ := bind_eq_ok.mp h
  obtain ⟨_, time, h⟩ := bind_eq_ok.mp h
  obtain ⟨_, _, h⟩ := bind_eq_ok.mp h
  obtain ⟨rfl, _⟩ := Prod.mk.inj (Except.ok.inj h)
  exact Clock.bounded_of_scan time

theorem bounded_of_scanLoose {zone : Scan Int} {rest : List Char} {x : Date × Clock × Int}
    (h : scanLoose zone cs = .ok (x, rest)) : x.2.1.Bounded := by
  obtain ⟨_, _, h⟩ := bind_eq_ok.mp h
  obtain ⟨_, _, h⟩ := bind_eq_ok.mp h
  obtain ⟨_, time, h⟩ := bind_eq_ok.mp h
  obtain ⟨_, _, h⟩ := bind_eq_ok.mp h
  obtain ⟨rfl, _⟩ := Prod.mk.inj (Except.ok.inj h)
  exact Clock.bounded_of_scan time

/-- A moment that is read lies on a day that can be stored, or is a leap second at the end of the
last one. -/
theorem inside_of_read? (h : read? cs = some i) :
    i.date.Valid ∨ i.micros / 1000000 = endSecond := by
  unfold read? at h
  rcases Option.or_eq_some_iff.mp h with h | ⟨_, h⟩
  · exact inside_of_readAs? bounded_of_scanInternet h
  · rcases Option.or_eq_some_iff.mp h with h | ⟨_, h⟩
    · exact inside_of_readAs? bounded_of_scanLoose h
    · exact inside_of_readAs? bounded_of_scanLoose h

end Instant

/-! ## Times in UTC -/

/-- Nanoseconds from the epoch to a local date and time `offset` seconds east of UTC. -/
def sinceEpoch (d : Date) (t : Clock) (offset : Int) : Int :=
  ((d.dayNumber - epochDay) * 86400 + t.seconds - offset) * 1000000000 + t.nanosecond

namespace Instant

variable {i : Instant} {cs : List Char} {style : Scan (Date × Clock × Int)}

/-- Date, time and offset of a text that is a moment to be stored in one notation. -/
def fieldsAs? (style : Scan (Date × Clock × Int)) (cs : List Char) : Option (Date × Clock × Int) :=
  match style cs with
  | .ok (fields, []) =>
    if (ofLocal? fields.1 fields.2.1 fields.2.2).isSome then some fields else none
  | _ => none

/-- Date, time and offset of a text in the first notation in which it is a moment to be stored. -/
def fields? (cs : List Char) : Option (Date × Clock × Int) :=
  (fieldsAs? scanInternet cs).or
    ((fieldsAs? (scanLoose scanBasicOffset) cs).or
      (fieldsAs? (scanLoose fun cs => .ok (0, cs)) cs))

theorem fieldsAs?_of_readAs? (h : readAs? style cs = some i) :
    ∃ d t offset, fieldsAs? style cs = some (d, t, offset) ∧ ofLocal? d t offset = some i := by
  unfold readAs? at h
  split at h
  · next d t offset read =>
    refine ⟨d, t, offset, ?_, h⟩
    unfold fieldsAs?
    simp only [read, h]
    rfl
  · cases h

theorem fieldsAs?_eq_none (h : readAs? style cs = none) : fieldsAs? style cs = none := by
  unfold fieldsAs?
  split
  · next fields read =>
    unfold readAs? at h
    simp only [read] at h
    rw [h]
    rfl
  · rfl

/-- A moment is its time in UTC, cut off to whole microseconds also before the epoch. -/
theorem micros_of_ofLocal? {d : Date} {t : Clock} {offset : Int}
    (h : ofLocal? d t offset = some i) : i.micros = sinceEpoch d t offset / 1000 := by
  unfold ofLocal? at h
  simp only at h
  split at h
  · rw [← Option.some.inj h, sinceEpoch]
    simp only
    omega
  · cases h

/-- A moment is that of the fields of its text. -/
theorem fields?_of_read? (h : read? cs = some i) :
    ∃ d t offset, fields? cs = some (d, t, offset) ∧ ofLocal? d t offset = some i := by
  unfold read? at h
  unfold fields?
  rcases Option.or_eq_some_iff.mp h with h | ⟨none, h⟩
  · obtain ⟨d, t, offset, found, moment⟩ := fieldsAs?_of_readAs? h
    exact ⟨d, t, offset, by rw [found, Option.some_or], moment⟩
  · rw [fieldsAs?_eq_none none, Option.none_or]
    rcases Option.or_eq_some_iff.mp h with h | ⟨none, h⟩
    · obtain ⟨d, t, offset, found, moment⟩ := fieldsAs?_of_readAs? h
      exact ⟨d, t, offset, by rw [found, Option.some_or], moment⟩
    · rw [fieldsAs?_eq_none none, Option.none_or]
      exact fieldsAs?_of_readAs? h

end Instant

end TripleIndex.Calendar
