/-
  Decimal digits and integers. The digits of a number, with or without zeros in front, are digits
  only and write that number (`ofDigits_digits`, `ofDigits_padded`); the text of an integer of the
  range is read back as that integer (`readInteger_integerText`). None of these texts has a blank
  in it, so trimming leaves it as it is (`trim_eq_self`). Whatever integer is read is the one that
  the text writes, signs and zeros in front or not (`numeral?_of_readInteger`).
-/
import Mathlib
import TripleIndex.Numeral.Integer
import TripleIndex.Text.Blank

namespace TripleIndex.Text

theorem dropWhile_isBlank {cs : List Char} (h : ∀ c ∈ cs, isBlank c = false) :
    cs.dropWhile isBlank = cs := by
  cases cs with
  | nil => rfl
  | cons c cs => exact List.dropWhile_cons_of_neg (by simp [h c List.mem_cons_self])

/-- A text without blanks is its own trimmed form. -/
theorem trim_eq_self {cs : List Char} (h : ∀ c ∈ cs, isBlank c = false) : trim cs = cs := by
  unfold trim trimStart
  rw [dropWhile_isBlank h, dropWhile_isBlank (fun c hc => h c (List.mem_reverse.mp hc)),
    List.reverse_reverse]

end TripleIndex.Text

namespace TripleIndex.Numeral

open Text (isBlank)

/-! ## Digits -/

theorem digitValue?_digitChar {n : Nat} (h : n < 10) : digitValue? (digitChar n) = some n := by
  interval_cases n <;> decide

theorem isDigit_digitChar {n : Nat} (h : n < 10) : isDigit (digitChar n) = true := by
  rw [isDigit, digitValue?_digitChar h]
  rfl

theorem digits_of_lt {n : Nat} (h : n < 10) : digits n = [digitChar n] := by
  rw [digits, if_pos h]

theorem digits_of_ge {n : Nat} (h : ¬ n < 10) :
    digits n = digits (n / 10) ++ [digitChar (n % 10)] := by
  rw [digits, if_neg h]

theorem isDigit_of_mem_digits {n : Nat} {c : Char} (h : c ∈ digits n) : isDigit c = true := by
  induction n using Nat.strongRecOn with
  | _ n ih =>
    by_cases small : n < 10
    · rw [digits_of_lt small, List.mem_singleton] at h
      rw [h]
      exact isDigit_digitChar small
    · rw [digits_of_ge small, List.mem_append, List.mem_singleton] at h
      rcases h with h | rfl
      · exact ih (n / 10) (by omega) h
      · exact isDigit_digitChar (by omega)

theorem digits_ne_nil (n : Nat) : digits n ≠ [] := by
  rw [digits]
  split <;> simp

theorem isDigit_of_mem_padded {width n : Nat} {c : Char} (h : c ∈ padded width n) :
    isDigit c = true := by
  rcases List.mem_append.mp h with h | h
  · rw [List.eq_of_mem_replicate h]
    rfl
  · exact isDigit_of_mem_digits h

/-- The bounds of the code of a digit. -/
theorem isDigit_bounds {c : Char} (h : isDigit c = true) : 0x30 ≤ c.toNat ∧ c.toNat ≤ 0x39 := by
  unfold isDigit digitValue? at h
  split at h
  · next bounds => exact bounds
  · cases h

theorem isBlank_of_isDigit {c : Char} (h : isDigit c = true) : isBlank c = false := by
  have := isDigit_bounds h
  unfold isBlank
  simp only [Bool.or_eq_false_iff, Bool.and_eq_false_iff, decide_eq_false_iff_not, beq_eq_false_iff_ne]
  omega

/-! ## The number that digits write -/

theorem ofDigits_foldl (cs : List Char) (n : Nat) :
    cs.foldl (fun n c => n * 10 + (digitValue? c).getD 0) n
      = n * 10 ^ cs.length + ofDigits cs := by
  unfold ofDigits
  induction cs generalizing n with
  | nil => simp
  | cons c cs ih =>
    simp only [List.foldl_cons, List.length_cons]
    rw [ih, ih (0 * 10 + (digitValue? c).getD 0), pow_succ]
    ring

theorem ofDigits_append (cs ds : List Char) :
    ofDigits (cs ++ ds) = ofDigits cs * 10 ^ ds.length + ofDigits ds := by
  rw [ofDigits, List.foldl_append, ofDigits_foldl ds]
  rfl

theorem ofDigits_cons (c : Char) (cs : List Char) :
    ofDigits (c :: cs) = (digitValue? c).getD 0 * 10 ^ cs.length + ofDigits cs := by
  have h := ofDigits_append [c] cs
  simpa [ofDigits] using h

theorem digitValue?_lt {c : Char} {d : Nat} (h : digitValue? c = some d) : d < 10 := by
  have bounds := isDigit_bounds (c := c) (by rw [isDigit, h]; rfl)
  unfold digitValue? at h
  split at h
  · have value := Option.some.inj h
    omega
  · cases h

/-- As many digits write a number below the power of ten. -/
theorem ofDigits_lt (cs : List Char) : ofDigits cs < 10 ^ cs.length := by
  induction cs with
  | nil => exact Nat.one_pos
  | cons c cs ih =>
    have digit : (digitValue? c).getD 0 ≤ 9 := by
      cases h : digitValue? c with
      | none => exact Nat.zero_le 9
      | some d => exact Nat.le_of_lt_succ (digitValue?_lt h)
    calc ofDigits (c :: cs)
      _ = (digitValue? c).getD 0 * 10 ^ cs.length + ofDigits cs := ofDigits_cons c cs
      _ ≤ 9 * 10 ^ cs.length + ofDigits cs :=
        Nat.add_le_add_right (Nat.mul_le_mul_right _ digit) _
      _ < 10 ^ (c :: cs).length := by rw [List.length_cons, pow_succ]; omega

theorem ofDigits_replicate_zero (n : Nat) : ofDigits (List.replicate n '0') = 0 := by
  induction n with
  | zero => rfl
  | succ n ih =>
    have zero : digitValue? '0' = some 0 := by decide
    rw [List.replicate_succ, ofDigits_cons, ih, zero]
    simp

theorem ofDigits_digits (n : Nat) : ofDigits (digits n) = n := by
  induction n using Nat.strongRecOn with
  | _ n ih =>
    by_cases small : n < 10
    · rw [digits_of_lt small, ofDigits_cons, digitValue?_digitChar small]
      simp [ofDigits]
    · rw [digits_of_ge small, ofDigits_append, ih (n / 10) (by omega), ofDigits_cons,
        digitValue?_digitChar (Nat.mod_lt _ (by decide))]
      simp [ofDigits]
      omega

theorem ofDigits_padded (width n : Nat) : ofDigits (padded width n) = n := by
  rw [padded, ofDigits_append, ofDigits_replicate_zero, ofDigits_digits]
  simp

theorem length_digits_le {width n : Nat} (pos : 0 < width) (h : n < 10 ^ width) :
    (digits n).length ≤ width := by
  induction n using Nat.strongRecOn generalizing width with
  | _ n ih =>
    by_cases small : n < 10
    · rw [digits_of_lt small]
      exact pos
    · rw [digits_of_ge small, List.length_append, List.length_singleton]
      obtain ⟨width, rfl⟩ : ∃ k, width = k + 1 := ⟨width - 1, by omega⟩
      rw [pow_succ] at h
      have wide : 0 < width := by
        rcases Nat.eq_zero_or_pos width with rfl | wide
        · simp at h; omega
        · exact wide
      have := ih (n / 10) (by omega) wide (by omega)
      omega

/-- Padding fills up to the width, and no further for numbers of at most that many digits. -/
theorem length_padded {width n : Nat} (pos : 0 < width) (h : n < 10 ^ width) :
    (padded width n).length = width := by
  have := length_digits_le pos h
  rw [padded, List.length_append, List.length_replicate]
  omega

theorem padded_ne_nil (width n : Nat) : padded width n ≠ [] :=
  List.append_ne_nil_of_right_ne_nil _ (digits_ne_nil n)

/-! ## Integers -/

theorem readUpward_eq (high : Int) {cs : List Char} (digit : ∀ c ∈ cs, isDigit c = true) {n : Nat}
    (h : ((n * 10 ^ cs.length + ofDigits cs : Nat) : Int) ≤ high) :
    readUpward high n cs = .ok ((n * 10 ^ cs.length + ofDigits cs : Nat) : Int) := by
  induction cs generalizing n with
  | nil => simp [readUpward, ofDigits]
  | cons c cs ih =>
    obtain ⟨d, hd⟩ := Option.isSome_iff_exists.mp (digit c List.mem_cons_self)
    have step : n * 10 ^ (c :: cs).length + ofDigits (c :: cs)
        = (n * 10 + d) * 10 ^ cs.length + ofDigits cs := by
      rw [ofDigits_cons, hd, List.length_cons, pow_succ, Option.getD_some]
      ring
    rw [step] at h ⊢
    have grows : n * 10 + d ≤ (n * 10 + d) * 10 ^ cs.length + ofDigits cs :=
      Nat.le_add_right_of_le (Nat.le_mul_of_pos_right _ (Nat.pow_pos (by decide)))
    have next : (n : Int) * 10 + d = ((n * 10 + d : Nat) : Int) := by push_cast; ring
    have fits : ¬ high < ((n * 10 + d : Nat) : Int) := by omega
    unfold readUpward
    simp only [hd, next, if_neg fits]
    exact ih (fun c hc => digit c (List.mem_cons_of_mem _ hc)) h

theorem readDownward_eq (low : Int) {cs : List Char} (digit : ∀ c ∈ cs, isDigit c = true) {n : Nat}
    (h : low ≤ -((n * 10 ^ cs.length + ofDigits cs : Nat) : Int)) :
    readDownward low (-n) cs = .ok (-((n * 10 ^ cs.length + ofDigits cs : Nat) : Int)) := by
  induction cs generalizing n with
  | nil => simp [readDownward, ofDigits]
  | cons c cs ih =>
    obtain ⟨d, hd⟩ := Option.isSome_iff_exists.mp (digit c List.mem_cons_self)
    have step : n * 10 ^ (c :: cs).length + ofDigits (c :: cs)
        = (n * 10 + d) * 10 ^ cs.length + ofDigits cs := by
      rw [ofDigits_cons, hd, List.length_cons, pow_succ, Option.getD_some]
      ring
    rw [step] at h ⊢
    have grows : n * 10 + d ≤ (n * 10 + d) * 10 ^ cs.length + ofDigits cs :=
      Nat.le_add_right_of_le (Nat.le_mul_of_pos_right _ (Nat.pow_pos (by decide)))
    have next : -(n : Int) * 10 - d = -((n * 10 + d : Nat) : Int) := by push_cast; ring
    have fits : ¬ -((n * 10 + d : Nat) : Int) < low := by omega
    unfold readDownward
    simp only [hd, next, if_neg fits]
    exact ih (fun c hc => digit c (List.mem_cons_of_mem _ hc)) h

theorem ne_sign_of_isDigit {c : Char} (h : isDigit c = true) : c ≠ '+' ∧ c ≠ '-' := by
  constructor <;> rintro rfl <;> revert h <;> decide

/-- The text of an integer of the range is read back as that integer. -/
theorem readInteger_integerText {low high n : Int} (lower : low ≤ n) (upper : n ≤ high) :
    readInteger low high (integerText n) = .ok n := by
  have digit : ∀ c ∈ digits n.natAbs, isDigit c = true := fun c => isDigit_of_mem_digits
  have value := ofDigits_digits n.natAbs
  obtain ⟨c, cs, hcs⟩ := List.exists_cons_of_ne_nil (digits_ne_nil n.natAbs)
  rw [hcs] at digit value
  unfold integerText
  rw [hcs]
  by_cases negative : n < 0
  · have h := readDownward_eq low (n := 0) digit (by simp only [value]; omega)
    simp only [if_pos negative, readInteger]
    simp only [value, Nat.cast_zero, neg_zero, zero_mul, zero_add] at h
    rw [h]
    exact congrArg Except.ok (by omega)
  · have h := readUpward_eq high (n := 0) digit (by simp only [value]; omega)
    have ⟨plus, minus⟩ := ne_sign_of_isDigit (digit c List.mem_cons_self)
    have same : readInteger low high (c :: cs) = readUpward high 0 (c :: cs) := by
      unfold readInteger
      split <;> simp_all
    simp only [value, Nat.cast_zero, zero_mul, zero_add] at h
    rw [if_neg negative, same, h]
    exact congrArg Except.ok (by omega)

theorem isBlank_of_mem_integerText {n : Int} {c : Char} (h : c ∈ integerText n) :
    isBlank c = false := by
  unfold integerText at h
  split at h
  · rcases List.mem_cons.mp h with rfl | h
    · rfl
    · exact isBlank_of_isDigit (isDigit_of_mem_digits h)
  · exact isBlank_of_isDigit (isDigit_of_mem_digits h)

/-! ## Numerals of any length -/

/-- The natural number that digits write; there has to be one of them. -/
def natural? (ds : List Char) : Option Nat :=
  if ds ≠ [] ∧ ds.all isDigit then some (ofDigits ds) else none

/-- The integer that digits write, with a sign in front or none. -/
def numeral? (cs : List Char) : Option Int :=
  match cs with
  | '+' :: ds => (natural? ds).map fun n : Nat => (n : Int)
  | '-' :: ds => (natural? ds).map fun n : Nat => -(n : Int)
  | ds => (natural? ds).map fun n : Nat => (n : Int)

theorem natural?_eq {ds : List Char} (some : ds ≠ []) (digit : ∀ c ∈ ds, isDigit c = true) :
    natural? ds = .some (ofDigits ds) :=
  if_pos ⟨some, List.all_eq_true.mpr digit⟩

/-- What is read upward is all digits, and the number that they continue. -/
theorem readUpward_eq_ok {high n m : Int} {cs : List Char} (start : n ≤ high)
    (h : readUpward high n cs = .ok m) :
    (∀ c ∈ cs, isDigit c = true) ∧ m = n * 10 ^ cs.length + ofDigits cs ∧ m ≤ high := by
  induction cs generalizing n with
  | nil =>
    obtain rfl := Except.ok.inj h
    exact ⟨nofun, by simp [ofDigits], start⟩
  | cons c cs ih =>
    unfold readUpward at h
    split at h
    · cases h
    · next d hd =>
      split at h
      · cases h
      · next fits =>
        obtain ⟨digit, value, inside⟩ := ih (not_lt.mp fits) h
        refine ⟨List.forall_mem_cons.mpr ⟨by rw [isDigit, hd]; rfl, digit⟩, ?_, inside⟩
        rw [value, ofDigits_cons, hd, List.length_cons, pow_succ]
        push_cast [Option.getD_some]
        ring

theorem readDownward_eq_ok {low n m : Int} {cs : List Char} (start : low ≤ n)
    (h : readDownward low n cs = .ok m) :
    (∀ c ∈ cs, isDigit c = true) ∧ m = n * 10 ^ cs.length - ofDigits cs ∧ low ≤ m := by
  induction cs generalizing n with
  | nil =>
    obtain rfl := Except.ok.inj h
    exact ⟨nofun, by simp [ofDigits], start⟩
  | cons c cs ih =>
    unfold readDownward at h
    split at h
    · cases h
    · next d hd =>
      split at h
      · cases h
      · next fits =>
        obtain ⟨digit, value, inside⟩ := ih (not_lt.mp fits) h
        refine ⟨List.forall_mem_cons.mpr ⟨by rw [isDigit, hd]; rfl, digit⟩, ?_, inside⟩
        rw [value, ofDigits_cons, hd, List.length_cons, pow_succ]
        push_cast [Option.getD_some]
        ring

/-- An integer that is read is the one that the text writes, and in the range. -/
theorem numeral?_of_readInteger {low high n : Int} {cs : List Char} (lower : low ≤ 0)
    (upper : 0 ≤ high) (h : readInteger low high cs = .ok n) :
    numeral? cs = some n ∧ low ≤ n ∧ n ≤ high := by
  have upward {ds : List Char} (some : ds ≠ []) (h : readUpward high 0 ds = .ok n) :
      (natural? ds).map (fun n : Nat => (n : Int)) = .some n ∧ low ≤ n ∧ n ≤ high := by
    obtain ⟨digit, value, inside⟩ := readUpward_eq_ok upper h
    rw [zero_mul, zero_add] at value
    rw [natural?_eq some digit, value]
    exact ⟨rfl, by omega, value ▸ inside⟩
  have downward {ds : List Char} (some : ds ≠ []) (h : readDownward low 0 ds = .ok n) :
      (natural? ds).map (fun n : Nat => -(n : Int)) = .some n ∧ low ≤ n ∧ n ≤ high := by
    obtain ⟨digit, value, inside⟩ := readDownward_eq_ok lower h
    rw [zero_mul, zero_sub] at value
    rw [natural?_eq some digit, value]
    exact ⟨rfl, value ▸ inside, by omega⟩
  unfold readInteger at h
  split at h
  · cases h
  · cases h
  · cases h
  · next sign => exact upward (fun none => sign (by rw [none])) h
  · next sign => exact downward (fun none => sign (by rw [none])) h
  · next empty _ _ plus minus =>
    unfold numeral?
    split
    · exact (plus _ rfl).elim
    · exact (minus _ rfl).elim
    · exact upward (fun none => empty none) h

end TripleIndex.Numeral
