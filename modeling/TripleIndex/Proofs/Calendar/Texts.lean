/-
  Texts of dates and moments read back: every date that can be stored (`read_text`), and every
  moment of the years 0 to 9999 (`read?_text?`). A later or earlier moment is written with a sign
  in front of its year, which no notation with a letter for the offset allows, so that its text
  cannot be read (`read?_text?_of_sign`).
-/
import Mathlib
import TripleIndex.Calendar.Instant
import TripleIndex.Proofs.Calendar.Date
import TripleIndex.Proofs.Numeral.Digits
import TripleIndex.Proofs.Outcome

namespace TripleIndex.Calendar

open Numeral (isDigit ofDigits padded ofDigits_padded length_padded isDigit_of_mem_padded
  isBlank_of_isDigit)
open Outcome (bind_eq_ok ok_bind)
open Text (isBlank trimStart)

namespace Scan

/-! ## Fields -/

/-- Digits are read up to the greatest number of them or up to something that is no digit. -/
theorem number_eq (least : Nat) {most : Nat} {ds : List Char} (rest : List Char)
    (digit : ∀ c ∈ ds, isDigit c = true)
    (enough : least ≤ ds.length) (fits : ds.length ≤ most)
    (stop : ds.length = most ∨ ∀ c ∈ rest.head?, isDigit c = false) :
    number least most (ds ++ rest) = .ok (ofDigits ds, rest) := by
  have cut : (ds ++ rest).take most = ds ++ rest.take (most - ds.length) := by
    rw [List.take_append, List.take_of_length_le fits]
  have nodigit : ∀ c ∈ (rest.take (most - ds.length)).head?, isDigit c = false := by
    rcases stop with h | h
    · rw [h, Nat.sub_self, List.take_zero]
      exact nofun
    · intro c hc
      rw [List.head?_take] at hc
      split at hc
      · cases hc
      · exact h c hc
  have taken : ((ds ++ rest).take most).takeWhile isDigit = ds := by
    rw [cut, List.takeWhile_append_of_pos digit]
    cases hr : rest.take (most - ds.length) with
    | nil => simp
    | cons c cs =>
      rw [hr] at nodigit
      rw [List.takeWhile_cons_of_neg (by simp [nodigit c rfl]), List.append_nil]
  unfold number
  simp only [taken]
  rw [if_neg (by rw [List.length_append]; omega), if_neg (by omega), List.drop_left]

theorem number_padded {least most width n : Nat} {rest : List Char}
    (enough : least ≤ (padded width n).length) (fits : (padded width n).length ≤ most)
    (stop : (padded width n).length = most ∨ ∀ c ∈ rest.head?, isDigit c = false) :
    number least most (padded width n ++ rest) = .ok (n, rest) := by
  rw [number_eq _ _ (fun c => isDigit_of_mem_padded) enough fits stop, ofDigits_padded]

theorem fixed_padded {width n : Nat} (pos : 0 < width) (small : n < 10 ^ width)
    (rest : List Char) : fixed width (padded width n ++ rest) = .ok (n, rest) := by
  have length := length_padded pos small
  exact number_padded (Nat.le_of_eq length.symm) (Nat.le_of_eq length) (.inl length)

theorem trimStart_padded {width n : Nat} (rest : List Char) :
    trimStart (padded width n ++ rest) = padded width n ++ rest := by
  obtain ⟨c, cs, hcs⟩ := List.exists_cons_of_ne_nil (Numeral.padded_ne_nil width n)
  have mem : c ∈ padded width n := hcs ▸ List.mem_cons_self
  have digit : isDigit c = true := isDigit_of_mem_padded mem
  rw [trimStart, hcs, List.cons_append]
  exact List.dropWhile_cons_of_neg (by simp [isBlank_of_isDigit digit])

theorem loose_padded {n : Nat} (small : n < 100) (rest : List Char) :
    loose 2 (padded 2 n ++ rest) = .ok (n, rest) := by
  have length : (padded 2 n).length = 2 := length_padded (by decide) small
  rw [loose, trimStart_padded]
  exact number_padded (by omega) (Nat.le_of_eq length) (.inl length)

theorem within_eq {scan : Scan Nat} {low high n : Nat} {cs rest : List Char}
    (h : scan cs = .ok (n, rest)) (lower : low ≤ n) (upper : n ≤ high) :
    within low high scan cs = .ok (n, rest) := by
  unfold within
  rw [h, ok_bind]
  exact if_pos ⟨lower, upper⟩

theorem mark_cons (c : Char) (rest : List Char) : mark c (c :: rest) = .ok ((), rest) :=
  if_pos rfl

/-- The text of a year is read as that year, if a character follows that is no digit. -/
theorem year_yearText {y : Int} (low : firstYear ≤ y) (high : y ≤ lastYear) {c : Char}
    (stop : isDigit c = false) (rest : List Char) :
    year (yearText y ++ c :: rest) = .ok (y, c :: rest) := by
  have nodigit : ∀ d ∈ (c :: rest).head?, isDigit d = false := by rintro d ⟨⟩; exact stop
  have range : Int32.minValue.toInt ≤ y ∧ y ≤ Int32.maxValue.toInt := by
    rw [Int32.toInt_minValue, Int32.toInt_maxValue]
    unfold firstYear at low
    unfold lastYear at high
    omega
  have some : 1 ≤ (padded 4 y.natAbs).length :=
    List.length_pos_of_ne_nil (Numeral.padded_ne_nil 4 y.natAbs)
  unfold yearText
  split
  · next common =>
    have length := length_padded (by decide) (show y.natAbs < 10 ^ 4 by omega)
    have read : number 1 4 (padded 4 y.natAbs ++ c :: rest) = .ok (y.natAbs, c :: rest) :=
      number_padded some (Nat.le_of_eq length) (.inl length)
    obtain ⟨d, ds, hds⟩ := List.exists_cons_of_ne_nil (Numeral.padded_ne_nil 4 y.natAbs)
    have ⟨plus, minus⟩ := Numeral.ne_sign_of_isDigit
      (isDigit_of_mem_padded (hds ▸ List.mem_cons_self))
    have same : (y.natAbs : Int) = y := by omega
    unfold year
    rw [trimStart_padded, hds, List.cons_append]
    -- the first character is a digit, so there is no sign
    split
    · next e => exact absurd (List.cons.inj e).1 minus
    · next e => exact absurd (List.cons.inj e).1 plus
    · rw [← List.cons_append, ← hds]
      simp only [read, Outcome.map_ok, ok_bind, same]
      exact if_pos range
  · next rare =>
    have fits : (padded 4 y.natAbs).length ≤ (padded 4 y.natAbs ++ c :: rest).length := by
      rw [List.length_append]
      omega
    have read := number_padded some fits (.inr nodigit)
    have front {sign : Char} (h : isBlank sign = false) (cs : List Char) :
        trimStart (sign :: cs) = sign :: cs := List.dropWhile_cons_of_neg (by simp [h])
    unfold year
    by_cases negative : y < 0
    · have same : -(y.natAbs : Int) = y := by omega
      rw [if_pos negative, List.cons_append, front (by decide)]
      simp only [read, Outcome.map_ok, ok_bind, same]
      exact if_pos range
    · have same : (y.natAbs : Int) = y := by omega
      rw [if_neg negative, List.cons_append, front (by decide)]
      simp only [read, Outcome.map_ok, ok_bind, same]
      exact if_pos range

end Scan

/-! ## Dates -/

theorem isBlank_of_mem_padded {width n : Nat} {c : Char} (h : c ∈ padded width n) :
    isBlank c = false :=
  isBlank_of_isDigit (isDigit_of_mem_padded h)

theorem isBlank_of_mem_yearText {y : Int} {c : Char} (h : c ∈ yearText y) : isBlank c = false := by
  unfold yearText at h
  split at h
  · exact isBlank_of_mem_padded h
  · rcases List.mem_cons.mp h with rfl | h
    · split <;> decide
    · exact isBlank_of_mem_padded h

namespace Date

/-- Readers of year, month and day that read their texts read the text of a date. -/
theorem scan_text {d : Date} (year : Scan Int) (pair : Scan Nat) (h : d.InMonth)
    (years : ∀ rest, year (yearText d.year ++ '-' :: rest) = .ok (d.year, '-' :: rest))
    (pairs : ∀ n < 100, ∀ rest, pair (padded 2 n ++ rest) = .ok (n, rest)) (rest : List Char) :
    scan year pair (d.text ++ rest) = .ok (d, rest) := by
  obtain ⟨month, day⟩ := h.bounds
  unfold scan text
  simp only [List.append_assoc, List.cons_append]
  rw [years]
  simp only [ok_bind, Scan.mark_cons]
  rw [Scan.within_eq (pairs d.month (by omega) _) h.1 month]
  simp only [ok_bind, Scan.mark_cons]
  rw [Scan.within_eq (pairs d.day (by omega) _) h.2.1 day]
  rfl

/-- The text of a date that can be stored reads back as that date. -/
theorem read_text {d : Date} (h : d.Valid) : read d.text = .ok d := by
  have scanned := scan_text Scan.year (Scan.loose 2) (inMonth_of_valid h)
    (fun rest => Scan.year_yearText h.1.1 h.1.2 (by decide) rest)
    (fun n hn rest => Scan.loose_padded hn rest) []
  rw [List.append_nil] at scanned
  unfold read
  rw [scanned]
  simp only [ok_bind, Scan.finished, if_true, if_pos h]

/-- A date that is read can be stored. -/
theorem valid_of_read {cs : List Char} {d : Date} (h : read cs = .ok d) : d.Valid := by
  obtain ⟨⟨e, rest⟩, _, h⟩ := bind_eq_ok.mp h
  obtain ⟨_, _, h⟩ := bind_eq_ok.mp h
  split at h
  · next valid => exact Except.ok.inj h ▸ valid
  · cases h

theorem isBlank_of_mem_text {d : Date} {c : Char} (h : c ∈ d.text) : isBlank c = false := by
  unfold text at h
  simp only [List.mem_append, List.mem_cons] at h
  rcases h with (h | rfl | h) | rfl | h
  · exact isBlank_of_mem_yearText h
  · decide
  · exact isBlank_of_mem_padded h
  · decide
  · exact isBlank_of_mem_padded h

end Date

/-! ## Moments -/

namespace Instant

/-- The day of a moment in UTC. -/
def date (i : Instant) : Date :=
  Date.ofDayNumber (i.micros / 1000000 / 86400 + epochDay)

/-- The year of a moment in UTC. -/
def year (i : Instant) : Int :=
  i.date.year

/-- The time of day of a moment, to the microsecond. -/
def clock (i : Instant) : Clock :=
  let time := (i.micros / 1000000 % 86400).toNat
  ⟨time / 3600, time / 60 % 60, time % 60, (i.micros % 1000000).toNat * 1000⟩

theorem valid_date {i : Instant} (h : 0 ≤ i.year ∧ i.year ≤ 9999) : i.date.Valid := by
  have range : firstYear ≤ 0 ∧ 9999 ≤ lastYear := by decide
  exact ⟨⟨Int.le_trans range.1 h.1, Int.le_trans h.2 range.2⟩, (Date.dayNumber_ofDayNumber _).1⟩

theorem fraction_fractionText {micros : Nat} (small : micros < 1000000) (rest : List Char) :
    Scan.fraction (fractionText micros ++ 'Z' :: rest) = .ok (micros * 1000, 'Z' :: rest) := by
  have stop : ∀ c ∈ ('Z' :: rest).head?, isDigit c = false := by rintro c ⟨⟩; decide
  have letter : ('Z' :: rest).dropWhile isDigit = 'Z' :: rest :=
    List.dropWhile_cons_of_neg (by decide)
  unfold fractionText
  split
  · next zero => rw [zero]; rfl
  · split
    · next coarse =>
      have length : (padded 3 (micros / 1000)).length = 3 :=
        length_padded (by decide) (by omega)
      have read : Scan.number 1 9 (padded 3 (micros / 1000) ++ 'Z' :: rest)
          = .ok (Numeral.ofDigits (padded 3 (micros / 1000)), 'Z' :: rest) :=
        Scan.number_eq 1 _ (fun c => isDigit_of_mem_padded) (by omega) (by omega) (.inr stop)
      have scale : micros / 1000 * 10 ^ 6 = micros * 1000 := by omega
      rw [List.cons_append, Scan.fraction]
      simp only [read, ok_bind, ofDigits_padded, List.length_append, length, Nat.add_sub_cancel_right]
      exact congrArg Except.ok (Prod.ext scale letter)
    · have length : (padded 6 micros).length = 6 := length_padded (by decide) small
      have read : Scan.number 1 9 (padded 6 micros ++ 'Z' :: rest)
          = .ok (Numeral.ofDigits (padded 6 micros), 'Z' :: rest) :=
        Scan.number_eq 1 _ (fun c => isDigit_of_mem_padded) (by omega) (by omega) (.inr stop)
      rw [List.cons_append, Scan.fraction]
      simp only [read, ok_bind, ofDigits_padded, List.length_append, length, Nat.add_sub_cancel_right]
      exact congrArg Except.ok (Prod.ext rfl letter)

theorem isBlank_of_mem_fractionText {micros : Nat} {c : Char} (h : c ∈ fractionText micros) :
    isBlank c = false := by
  unfold fractionText at h
  split at h
  · cases h
  · split at h
    · rcases List.mem_cons.mp h with rfl | h
      · decide
      · exact isBlank_of_mem_padded h
    · rcases List.mem_cons.mp h with rfl | h
      · decide
      · exact isBlank_of_mem_padded h

/-- The text of a moment: its day, its time of day, and the letter for UTC. -/
theorem text?_eq {i : Instant} (h : i.date.Valid) :
    i.text? = some (i.date.text ++ 'T' :: (padded 2 i.clock.hour ++ ':' ::
      (padded 2 i.clock.minute ++ ':' :: (padded 2 i.clock.second
        ++ (fractionText (i.micros % 1000000).toNat ++ ['Z']))))) := by
  unfold text? Date.ofDayNumber?
  have h' : (Date.ofDayNumber (i.micros / 1000000 / 86400 + epochDay)).Valid := h
  simp only [if_pos h', Option.map_some, List.append_assoc, List.cons_append]
  rfl

theorem isBlank_of_mem_text? {i : Instant} (h : i.date.Valid) {cs : List Char}
    (written : i.text? = some cs) {c : Char} (hc : c ∈ cs) : isBlank c = false := by
  rw [text?_eq h] at written
  rw [← Option.some.inj written] at hc
  simp only [List.mem_append, List.mem_cons, List.not_mem_nil, or_false] at hc
  rcases hc with hc | rfl | hc | rfl | hc | rfl | hc | hc | rfl
  · exact Date.isBlank_of_mem_text hc
  · decide
  · exact isBlank_of_mem_padded hc
  · decide
  · exact isBlank_of_mem_padded hc
  · decide
  · exact isBlank_of_mem_padded hc
  · exact isBlank_of_mem_fractionText hc
  · decide

/-- The time of day of a moment is read from its text by a reader of two digits. -/
theorem scan_clock (i : Instant) {pair : Scan Nat}
    (pairs : ∀ n < 100, ∀ rest, pair (padded 2 n ++ rest) = .ok (n, rest)) :
    Clock.scan pair (padded 2 i.clock.hour ++ ':' :: (padded 2 i.clock.minute ++ ':' ::
        (padded 2 i.clock.second ++ (fractionText (i.micros % 1000000).toNat ++ ['Z']))))
      = .ok (i.clock, ['Z']) := by
  have hour : i.clock.hour ≤ 23 := by unfold clock; simp only; omega
  have minute : i.clock.minute ≤ 59 := by unfold clock; simp only; omega
  have second : i.clock.second ≤ 60 := by unfold clock; simp only; omega
  have micros : (i.micros % 1000000).toNat < 1000000 := by omega
  have fraction : (i.micros % 1000000).toNat * 1000 = i.clock.nanosecond := rfl
  rw [Clock.scan, Scan.within_eq (pairs _ (by omega) _) (Nat.zero_le _) hour]
  simp only [ok_bind, Scan.mark_cons]
  rw [Scan.within_eq (pairs _ (by omega) _) (Nat.zero_le _) minute]
  simp only [ok_bind, Scan.mark_cons]
  rw [Scan.within_eq (pairs _ (by omega) _) (Nat.zero_le _) second]
  simp only [ok_bind]
  rw [fraction_fractionText micros, fraction]
  rfl

theorem scanInternet_text {i : Instant} (h : 0 ≤ i.year ∧ i.year ≤ 9999) {cs : List Char}
    (written : i.text? = some cs) : scanInternet cs = .ok ((i.date, i.clock, 0), []) := by
  have valid := valid_date h
  rw [text?_eq valid] at written
  have yearText : yearText i.date.year = padded 4 i.date.year.natAbs := if_pos h
  have years (rest : List Char) :
      (Scan.fixed 4 (Calendar.yearText i.date.year ++ '-' :: rest)).map
        (fun x => ((x.1 : Int), x.2)) = .ok (i.date.year, '-' :: rest) := by
    have small : i.date.year.natAbs < 10 ^ 4 := by unfold year at h; omega
    have same : (i.date.year.natAbs : Int) = i.date.year := by unfold year at h; omega
    rw [yearText, Scan.fixed_padded (by decide) small, Outcome.map_ok, same]
  have pairs : ∀ n < 100, ∀ rest, Scan.fixed 2 (padded 2 n ++ rest) = .ok (n, rest) :=
    fun n hn rest => Scan.fixed_padded (by decide) hn rest
  rw [← Option.some.inj written, scanInternet,
    Date.scan_text _ _ (Date.inMonth_of_valid valid) years pairs]
  simp only [ok_bind, scanInternetSeparator, true_or, if_true, scan_clock i pairs]
  rfl

/-- The local time of a moment in UTC leads back to the moment. -/
theorem ofLocal?_clock {i : Instant} (valid : i.date.Valid) :
    ofLocal? i.date i.clock 0 = some i := by
  have day := (Date.dayNumber_ofDayNumber (i.micros / 1000000 / 86400 + epochDay)).2
  have number : i.date.dayNumber = i.micros / 1000000 / 86400 + epochDay := day
  have second : min i.clock.second 59 = i.clock.second := by unfold clock; simp only; omega
  have seconds : i.clock.seconds = i.micros / 1000000 % 86400 := by
    unfold clock Clock.seconds
    simp only
    omega
  have last : ((i.date.dayNumber - epochDay) * 86400 - 0 + i.clock.seconds) / 86400 + epochDay
      = i.date.dayNumber := by rw [seconds]; omega
  have stored : (Date.ofDayNumber? i.date.dayNumber).isSome = true := by
    rw [Date.ofDayNumber?_dayNumber valid]
    rfl
  have micros : (((i.date.dayNumber - epochDay) * 86400 - 0 + i.clock.seconds) * 1000000
      + (i.clock.nanosecond / 1000 : Nat)) = i.micros := by
    have nanos : i.clock.nanosecond / 1000 = (i.micros % 1000000).toNat :=
      Nat.mul_div_cancel _ (by decide)
    rw [seconds, nanos]
    omega
  unfold ofLocal?
  simp only [second, last, stored, micros, valid, and_self, if_true]

/-- The text of a moment of the years 0 to 9999 reads back as that moment. -/
theorem read?_text? {i : Instant} (h : 0 ≤ i.year ∧ i.year ≤ 9999) :
    ∃ cs, i.text? = some cs ∧ read? cs = some i := by
  have written := text?_eq (valid_date h)
  refine ⟨_, written, ?_⟩
  unfold read? readAs?
  rw [scanInternet_text h written]
  simp only [ofLocal?_clock (valid_date h), Option.some_or]

/-! ### Years with a sign -/

/-- Digits are not read from a text that starts with something else. -/
theorem number_of_not_digit {least most : Nat} (some : 0 < least) {c : Char}
    (stop : isDigit c = false) (cs : List Char) :
    ∃ e, Scan.number least most (c :: cs) = .error e := by
  have none : ((c :: cs).take most).takeWhile isDigit = [] := by
    cases most with
    | zero => rfl
    | succ most => rw [List.take_succ_cons, List.takeWhile_cons_of_neg (by simp [stop])]
  unfold Scan.number
  simp only [none, List.length_nil, if_pos some]
  split
  · exact ⟨_, rfl⟩
  · exact ⟨_, rfl⟩

theorem yearText_of_sign {y : Int} (sign : ¬ (0 ≤ y ∧ y ≤ 9999)) :
    ∃ c cs, yearText y = c :: cs ∧ isDigit c = false := by
  refine ⟨if y < 0 then '-' else '+', padded 4 y.natAbs, if_neg sign, ?_⟩
  split <;> decide

/-- The internet notation has no sign in front of a year. -/
theorem scanInternet_of_sign {y : Int} (sign : ¬ (0 ≤ y ∧ y ≤ 9999)) (cs : List Char) :
    ∃ e, scanInternet (yearText y ++ cs) = .error e := by
  obtain ⟨c, ds, text, stop⟩ := yearText_of_sign sign
  obtain ⟨e, failed⟩ : ∃ e, Scan.number 4 4 (c :: (ds ++ cs)) = .error e :=
    number_of_not_digit (by decide) stop (ds ++ cs)
  refine ⟨e, ?_⟩
  rw [text, List.cons_append, scanInternet, Date.scan, Scan.fixed, failed]
  rfl

/-- In the other notations the text of a moment is read up to the letter for UTC. -/
theorem scanLoose_text {i : Instant} (valid : i.date.Valid) {cs : List Char}
    (written : i.text? = some cs) (zone : Scan Int) :
    scanLoose zone cs
      = (zone ['Z']).map fun (offset, rest) => ((i.date, i.clock, offset), rest) := by
  rw [text?_eq valid] at written
  have years (rest : List Char) :
      Scan.year (yearText i.date.year ++ '-' :: rest) = .ok (i.date.year, '-' :: rest) :=
    Scan.year_yearText valid.1.1 valid.1.2 (by decide) rest
  have pairs : ∀ n < 100, ∀ rest, Scan.loose 2 (padded 2 n ++ rest) = .ok (n, rest) :=
    fun n hn rest => Scan.loose_padded hn rest
  rw [← Option.some.inj written, scanLoose,
    Date.scan_text _ _ (Date.inMonth_of_valid valid) years pairs]
  simp only [ok_bind, Scan.mark_cons, scan_clock i pairs]
  cases zone ['Z'] <;> rfl

/-- The text of a moment outside the years 0 to 9999 is not read at all: the notation with a letter
for UTC takes no sign, and the notations with a sign take no letter. -/
theorem read?_text?_of_sign {i : Instant} (valid : i.date.Valid)
    (sign : ¬ (0 ≤ i.year ∧ i.year ≤ 9999)) {cs : List Char} (written : i.text? = some cs) :
    read? cs = none := by
  have internet : readAs? scanInternet cs = none := by
    have front : ∃ rest, cs = yearText i.year ++ rest := by
      rw [text?_eq valid, Date.text, List.append_assoc, List.append_assoc] at written
      exact ⟨_, (Option.some.inj written).symm⟩
    obtain ⟨rest, rfl⟩ := front
    obtain ⟨e, failed⟩ := scanInternet_of_sign sign rest
    rw [readAs?, failed]
  have basic : readAs? (scanLoose scanBasicOffset) cs = none := by
    have letter : scanBasicOffset ['Z'] = .error .invalid := by decide
    unfold readAs?
    rw [scanLoose_text valid written, letter]
    rfl
  have bare : readAs? (scanLoose fun cs => .ok (0, cs)) cs = none := by
    unfold readAs?
    rw [scanLoose_text valid written]
    rfl
  rw [read?, internet, basic, bare]
  rfl

end Instant

end TripleIndex.Calendar
