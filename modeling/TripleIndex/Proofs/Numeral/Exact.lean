/-
  The exact value of floating-point numbers, as a rational number. Codes grow with their values
  (`Format.units_strictMono`), widening keeps the value (`Binary.value_convert`), and the two zeros
  have one value (`Binary.value_canonicalZero`).
-/
import Mathlib
import TripleIndex.Proofs.Numeral.Binary

namespace TripleIndex.Numeral

/-- The greater code has the greater value. -/
theorem Format.units_strictMono (f : Format) : StrictMono f.units := by
  intro code code' lt
  obtain ⟨m, split, value, few, normal⟩ := f.code_eq code
  obtain ⟨m', split', value', few', normal'⟩ := f.code_eq code'
  rw [value, value']
  generalize f.shift code = s at *
  generalize f.shift code' = s' at *
  rcases Nat.lt_trichotomy s s' with below | rfl | above
  · have full : f.step ≤ m' := normal'.resolve_left (Nat.ne_zero_of_lt below)
    calc m * 2 ^ s
      _ < 2 * f.step * 2 ^ s := Nat.mul_lt_mul_of_pos_right few (by positivity)
      _ = f.step * 2 ^ (s + 1) := by ring
      _ ≤ m' * 2 ^ s' := Nat.mul_le_mul full (Nat.pow_le_pow_right (by decide) below)
  · exact Nat.mul_lt_mul_of_pos_right (by omega) (by positivity)
  · have full : f.step ≤ m := normal.resolve_left (Nat.ne_zero_of_lt above)
    have orders : (s' + 1) * f.step ≤ s * f.step := Nat.mul_le_mul_right f.step above
    rw [Nat.succ_mul] at orders
    omega

namespace Binary

variable {f : Format}

/-- The number that the fields of a finite number stand for. Without an exponent the significand
has no leading one, and its unit is that of the least exponent. -/
def value (x : Binary f) : ℚ :=
  let exponent := x.magnitude / f.step
  let fraction := x.magnitude % f.step
  let significand := if exponent = 0 then fraction else f.step + fraction
  (if x.negative then -1 else 1) * (significand * 2 ^ (exponent - 1)) / 2 ^ f.scale

/-- The value in units of the least positive number. -/
theorem value_eq (x : Binary f) :
    x.value = (if x.negative then -1 else 1) * f.units x.magnitude / 2 ^ f.scale := by
  have division := Nat.div_add_mod x.magnitude f.step
  have significand : (if x.magnitude / f.step = 0 then x.magnitude % f.step
      else f.step + x.magnitude % f.step) = x.magnitude - f.shift x.magnitude * f.step := by
    unfold Format.shift
    split
    · next subnormal =>
      rw [subnormal] at division ⊢
      omega
    · next normal =>
      obtain ⟨e, he⟩ := Nat.exists_eq_succ_of_ne_zero normal
      rw [he, Nat.succ_sub_one]
      rw [he, Nat.mul_succ, Nat.mul_comm] at division
      omega
  have units : f.units x.magnitude = (if x.magnitude / f.step = 0 then x.magnitude % f.step
      else f.step + x.magnitude % f.step) * 2 ^ (x.magnitude / f.step - 1) := by
    rw [significand]
    rfl
  rw [units, Nat.cast_mul, Nat.cast_pow]
  rfl

/-- Whether the exponent field is not all ones, as it is for infinities and codes of no number. -/
def IsFinite (x : Binary f) : Prop :=
  x.magnitude / f.step ≠ 2 ^ f.exponentBits - 1

instance (x : Binary f) : Decidable x.IsFinite :=
  inferInstanceAs (Decidable (_ ≠ _))

theorem isFinite_iff (x : Binary f) : x.IsFinite ↔ x.magnitude < f.infinity := by
  have field : x.magnitude / f.step < 2 ^ f.exponentBits :=
    (Nat.div_lt_iff_lt_mul f.step_pos).mpr x.magnitude_lt
  have below : x.magnitude < f.infinity ↔ x.magnitude / f.step < 2 ^ f.exponentBits - 1 :=
    (Nat.div_lt_iff_lt_mul f.step_pos).symm
  rw [below, IsFinite]
  omega

/-- After the sign of zero is taken away only other numbers are negative. -/
theorem canonicalZero_ne_zero (x : Binary f) (negative : x.canonicalZero.negative = true) :
    x.canonicalZero.magnitude ≠ 0 := by
  unfold canonicalZero at negative ⊢
  split
  · next zero =>
    rw [if_pos zero] at negative
    cases negative
  · assumption

theorem value_canonicalZero (x : Binary f) : x.canonicalZero.value = x.value := by
  unfold canonicalZero
  split
  · next zero => simp [value, zero]
  · rfl

/-- A number is as great in a finer format. -/
theorem value_convert {g : Format} (finer : f.fractionBits ≤ g.fractionBits)
    (deeper : f.scale ≤ g.scale) {x : Binary f} (finite : x.magnitude < f.infinity)
    (finite' : (x.convert g).magnitude < g.infinity) : (x.convert g).value = x.value := by
  have scale : (2 : ℚ) ^ g.scale = 2 ^ (g.scale - f.scale) * 2 ^ f.scale := by
    rw [← pow_add, Nat.sub_add_cancel deeper]
  rw [value_eq, value_eq, negative_convert finite, units_convert finer deeper finite finite', scale]
  push_cast
  field_simp

end Binary

end TripleIndex.Numeral
