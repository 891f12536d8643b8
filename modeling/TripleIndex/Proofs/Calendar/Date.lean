/-
  Day numbers and dates. Every number belongs to one day of the calendar and every day of a month
  has its own number: `ofDayNumber_dayNumber` and `dayNumber_ofDayNumber`. Numbers are in the order
  of the calendar, by year, month and day: `dayNumber_lt_iff`.
-/
import Mathlib
import TripleIndex.Calendar.Date

namespace TripleIndex.Calendar

/-! ## Years -/

theorem daysBeforeYear_succ (year : Int) :
    daysBeforeYear (year + 1) = daysBeforeYear year + if isLeap year then 366 else 365 := by
  unfold daysBeforeYear isLeap
  by_cases h4 : year % 4 = 0 <;> by_cases h100 : year % 100 = 0 <;>
    by_cases h400 : year % 400 = 0 <;> simp [h4, h100, h400] <;> omega

theorem daysBeforeYear_mono {y z : Int} (h : y ≤ z) : daysBeforeYear y ≤ daysBeforeYear z := by
  unfold daysBeforeYear
  simp only
  omega

/-- The year of a day number starts before that day and ends no earlier. -/
theorem yearOfDay_spec (n : Int) :
    daysBeforeYear (yearOfDay n) < n ∧ n ≤ daysBeforeYear (yearOfDay n + 1) := by
  have bounds : daysBeforeYear (400 * (n - 1) / 146097 + 1 - 1) < n
      ∧ n ≤ daysBeforeYear (400 * (n - 1) / 146097 + 1 + 1 + 1) := by
    unfold daysBeforeYear
    simp only
    omega
  unfold yearOfDay
  simp only
  split
  · next early => exact ⟨bounds.1, by rwa [Int.sub_add_cancel]⟩
  · split
    · next late => exact ⟨late, bounds.2⟩
    · next early late => exact ⟨not_le.mp early, not_lt.mp late⟩

/-- No other year does. -/
theorem yearOfDay_eq {n year : Int} (first : daysBeforeYear year < n)
    (last : n ≤ daysBeforeYear (year + 1)) : yearOfDay n = year := by
  obtain ⟨first', last'⟩ := yearOfDay_spec n
  by_contra ne
  rcases Int.lt_or_gt_of_ne ne with h | h
  · have := daysBeforeYear_mono (show yearOfDay n + 1 ≤ year by omega)
    omega
  · have := daysBeforeYear_mono (show year + 1 ≤ yearOfDay n by omega)
    omega

/-! ## Months -/

theorem length_monthLengths (year : Int) : (monthLengths year).length = 12 := rfl

theorem sum_monthLengths (year : Int) :
    ((monthLengths year).sum : Int) = if isLeap year then 366 else 365 := by
  unfold monthLengths
  cases isLeap year <;> rfl

theorem daysBeforeMonth_eq (year : Int) (month : Nat) :
    daysBeforeMonth year month = ((monthLengths year).take (month - 1)).sum := by
  rw [daysBeforeMonth, List.sum_eq_foldl]

theorem sum_take_add_getD_le (lengths : List Nat) (i : Nat) :
    (lengths.take i).sum + lengths.getD i 0 ≤ lengths.sum := by
  induction lengths generalizing i with
  | nil => simp
  | cons length lengths ih =>
    cases i with
    | zero => simp
    | succ i =>
      have := ih i
      simp only [List.take_succ_cons, List.sum_cons, List.getD_cons_succ]
      omega

theorem sum_take_add_getD_le_take (lengths : List Nat) {i j : Nat} (lt : i < j) :
    (lengths.take i).sum + lengths.getD i 0 ≤ (lengths.take j).sum := by
  have within := sum_take_add_getD_le (lengths.take j) i
  rw [List.take_take, Nat.min_eq_left (Nat.le_of_lt lt)] at within
  rwa [List.getD_eq_getElem?_getD, List.getElem?_take_of_lt lt, ← List.getD_eq_getElem?_getD]
    at within

/-- The day of a month is found at the number of days before that month. -/
theorem monthAndDay_eq {lengths : List Nat} {i day : Nat} (month : Nat) (first : 1 ≤ day)
    (last : day ≤ lengths.getD i 0) :
    monthAndDay month lengths ((lengths.take i).sum + day) = (month + i, day) := by
  induction lengths generalizing i month with
  | nil => simp at last; omega
  | cons length lengths ih =>
    cases i with
    | zero =>
      have last : day ≤ length := last
      simp [monthAndDay, last]
    | succ i =>
      rw [List.getD_cons_succ] at last
      have later : ¬ length + (lengths.take i).sum + day ≤ length := by omega
      have rest : length + (lengths.take i).sum + day - length = (lengths.take i).sum + day := by
        omega
      rw [List.take_succ_cons, List.sum_cons, monthAndDay, if_neg later, rest, ih _ last]
      exact Prod.ext (by simp only; omega) rfl

/-- Every day of the year is a day of some month. -/
theorem monthAndDay_spec (lengths : List Nat) {n : Nat} (month : Nat) (first : 1 ≤ n)
    (last : n ≤ lengths.sum) :
    ∃ i day, monthAndDay month lengths n = (month + i, day) ∧ 1 ≤ day ∧ day ≤ lengths.getD i 0
      ∧ n = (lengths.take i).sum + day := by
  induction lengths generalizing n month with
  | nil => simp at last; omega
  | cons length lengths ih =>
    by_cases inside : n ≤ length
    · exact ⟨0, n, by simp [monthAndDay, inside], first, inside, by simp⟩
    · rw [List.sum_cons] at last
      obtain ⟨i, day, found, h1, h2, split⟩ := ih (n := n - length) (month + 1) (by omega) (by omega)
      refine ⟨i + 1, day, ?_, h1, ?_, ?_⟩
      · rw [monthAndDay, if_neg inside, found]
        exact Prod.ext (by simp only; omega) rfl
      · rwa [List.getD_cons_succ]
      · rw [List.take_succ_cons, List.sum_cons]
        omega

/-! ## Days -/

namespace Date

/-- Whether the month has that day. -/
def InMonth (d : Date) : Prop :=
  1 ≤ d.month ∧ 1 ≤ d.day ∧ d.day ≤ (monthLengths d.year).getD (d.month - 1) 0

theorem dayNumber_bounds {d : Date} (h : d.InMonth) :
    daysBeforeYear d.year < d.dayNumber ∧ d.dayNumber ≤ daysBeforeYear (d.year + 1) := by
  obtain ⟨_, first, last⟩ := h
  have within := sum_take_add_getD_le (monthLengths d.year) (d.month - 1)
  have total := sum_monthLengths d.year
  rw [dayNumber, daysBeforeYear_succ, daysBeforeMonth_eq, ← total]
  omega

theorem ofDayNumber_dayNumber {d : Date} (h : d.InMonth) : ofDayNumber d.dayNumber = d := by
  obtain ⟨low, high⟩ := dayNumber_bounds h
  obtain ⟨positive, first, last⟩ := h
  have year := yearOfDay_eq low high
  have rest : (d.dayNumber - daysBeforeYear d.year).toNat
      = ((monthLengths d.year).take (d.month - 1)).sum + d.day := by
    rw [dayNumber, daysBeforeMonth_eq]
    omega
  unfold ofDayNumber
  simp only [year, rest, monthAndDay_eq 1 first last]
  cases d
  simp only [Date.mk.injEq, true_and, and_true]
  exact Nat.add_sub_cancel' positive

/-- Every number is the number of the day it leads to, which its month has. -/
theorem dayNumber_ofDayNumber (n : Int) :
    (ofDayNumber n).InMonth ∧ (ofDayNumber n).dayNumber = n := by
  obtain ⟨low, high⟩ := yearOfDay_spec n
  have total := sum_monthLengths (yearOfDay n)
  rw [daysBeforeYear_succ, ← total] at high
  obtain ⟨i, day, found, first, last, split⟩ :=
    monthAndDay_spec (monthLengths (yearOfDay n))
      (n := (n - daysBeforeYear (yearOfDay n)).toNat) 1 (by omega) (by omega)
  have date : ofDayNumber n = ⟨yearOfDay n, 1 + i, day⟩ := by
    unfold ofDayNumber
    simp only [found]
  rw [date]
  refine ⟨⟨Nat.le_add_right 1 i, first, by simpa using last⟩, ?_⟩
  rw [dayNumber, daysBeforeMonth_eq, Nat.add_sub_cancel_left]
  dsimp only
  omega

theorem inMonth_of_valid {d : Date} (h : d.Valid) : d.InMonth :=
  h.2

theorem ofDayNumber?_dayNumber {d : Date} (h : d.Valid) : ofDayNumber? d.dayNumber = some d := by
  unfold ofDayNumber?
  simp only [ofDayNumber_dayNumber (inMonth_of_valid h), if_pos h]

/-- The month of a day is one of twelve, and no month is longer than 31 days. -/
theorem InMonth.bounds {d : Date} (h : d.InMonth) : d.month ≤ 12 ∧ d.day ≤ 31 := by
  obtain ⟨first, positive, last⟩ := h
  have month : d.month - 1 < 12 := by
    by_contra out
    rw [List.getD_eq_default _ _ (by rw [length_monthLengths]; omega)] at last
    omega
  have longest : ∀ k < 12, (monthLengths d.year).getD k 0 ≤ 31 := by
    intro k hk
    unfold monthLengths
    interval_cases k <;> cases isLeap d.year <;> decide
  have := longest _ month
  omega

/-- The day numbers of the years that can be stored fit 32 bits with room to spare. -/
theorem dayNumber_range {d : Date} (h : d.Valid) :
    -95746130 ≤ d.dayNumber ∧ d.dayNumber ≤ 95745399 := by
  obtain ⟨low, high⟩ := dayNumber_bounds (inMonth_of_valid h)
  have early := daysBeforeYear_mono h.1.1
  have late := daysBeforeYear_mono (show d.year + 1 ≤ lastYear + 1 from Int.add_le_add_right h.1.2 1)
  have first : daysBeforeYear firstYear = -95746130 := by decide
  have last : daysBeforeYear (lastYear + 1) = 95745399 := by decide
  omega

end Date

/-! ## Order -/

/-- Dates in the order of the calendar: by year, month and day. -/
instance : LinearOrder Date :=
  LinearOrder.lift' (fun d => toLex (d.year, toLex (d.month, d.day))) fun d e same => by
    cases d
    cases e
    simpa [Prod.ext_iff] using same

namespace Date

theorem lt_iff {d e : Date} : d < e ↔ d.year < e.year ∨ d.year = e.year ∧
    (d.month < e.month ∨ d.month = e.month ∧ d.day < e.day) := by
  show toLex (d.year, toLex (d.month, d.day)) < toLex (e.year, toLex (e.month, e.day)) ↔ _
  rw [Prod.Lex.toLex_lt_toLex, Prod.Lex.toLex_lt_toLex]

theorem dayNumber_lt_of_lt {d e : Date} (hd : d.InMonth) (he : e.InMonth) (lt : d < e) :
    d.dayNumber < e.dayNumber := by
  have last := (dayNumber_bounds hd).2
  have first := (dayNumber_bounds he).1
  rcases lt_iff.mp lt with years | ⟨year, months | ⟨month, days⟩⟩
  · have := daysBeforeYear_mono (Int.add_one_le_of_lt years)
    omega
  · have room := sum_take_add_getD_le_take (monthLengths d.year)
      (show d.month - 1 < e.month - 1 by have := hd.1; omega)
    have inside := hd.2.2
    have positive := he.2.1
    rw [dayNumber, dayNumber, daysBeforeMonth_eq, daysBeforeMonth_eq, ← year]
    omega
  · rw [dayNumber, dayNumber, year, month]
    omega

/-- Days are numbered in the order of the calendar. -/
theorem dayNumber_lt_iff {d e : Date} (hd : d.InMonth) (he : e.InMonth) :
    d.dayNumber < e.dayNumber ↔ d < e := by
  rcases lt_trichotomy d e with lt | rfl | gt
  · exact iff_of_true (dayNumber_lt_of_lt hd he lt) lt
  · exact iff_of_false (lt_irrefl _) (lt_irrefl _)
  · exact iff_of_false (lt_asymm (dayNumber_lt_of_lt he hd gt)) (lt_asymm gt)

end Date

end TripleIndex.Calendar
