/-
  The digits of machine words. A number of double precision is written as its word with the sign bit
  flipped or, under a minus sign, with all bits flipped (`place_double`). What is read as a word are
  digits in either case, and exactly as many as it has (`exists_decodeNat_iff`).

  * `order_embedding`: words are written in the order of their values, and read back.
-/
import Mathlib
import TripleIndex.Proofs.OrderedDigits

namespace TripleIndex.OrderedDigits

open Numeral (Binary Format)

/-! ## Numbers of double precision -/

/-- The number of double precision that a word stands for. -/
def double (a : UInt64) : Binary Format.binary64 :=
  Binary.ofBits Format.binary64 a.toNat

/-- The word of zero without a sign for the word of either zero, and any other word itself. -/
def plainZero (a : UInt64) : UInt64 :=
  if a = 0x8000000000000000 then 0 else a

/-- The word whose digits are written for a number. -/
def flipBits (a : UInt64) : UInt64 :=
  if a &&& 0x8000000000000000 = 0 then a ^^^ 0x8000000000000000 else ~~~a

theorem codes_eq : Format.binary64.codes = 2 ^ 63 := rfl

theorem double_of_lt {a : UInt64} (lt : a.toNat < 2 ^ 63) : double a = ⟨false, a.toNat, lt⟩ :=
  Binary.ofBits_of_lt lt

theorem double_of_ge {a : UInt64} (ge : 2 ^ 63 ≤ a.toNat) :
    ∃ h, double a = ⟨true, a.toNat - 2 ^ 63, h⟩ := by
  have word := a.toNat_lt
  have h : a.toNat - 2 ^ 63 < Format.binary64.codes := by rw [codes_eq]; omega
  refine ⟨h, ?_⟩
  have bits := Binary.ofBits_add_codes h
  rwa [codes_eq, Nat.sub_add_cancel ge] at bits

/-- The bits of a number are those of its word. -/
theorem toBits_double (a : UInt64) : (double a).toBits = a.toNat := by
  rcases Nat.lt_or_ge a.toNat (2 ^ 63) with lt | ge
  · rw [double_of_lt lt]
    exact Nat.zero_add _
  · obtain ⟨h, eq⟩ := double_of_ge ge
    rw [eq, Binary.toBits, codes_eq, if_pos rfl]
    exact Nat.add_sub_cancel' ge

theorem canonicalZero_double (a : UInt64) : (double a).canonicalZero = double (plainZero a) := by
  unfold plainZero
  split
  · next signed =>
    rw [signed]
    rfl
  · next other =>
    have ne : a.toNat ≠ 2 ^ 63 := fun same => other (UInt64.toNat_inj.mp same)
    rcases Nat.lt_or_ge a.toNat (2 ^ 63) with lt | ge
    · rw [double_of_lt lt, Binary.canonicalZero]
      split <;> rfl
    · obtain ⟨h, eq⟩ := double_of_ge ge
      have nonzero : a.toNat - 2 ^ 63 ≠ 0 := by omega
      rw [eq, Binary.canonicalZero, if_neg nonzero]

/-- Whether the sign bit is set. -/
theorem and_sign_eq_zero_iff (a : UInt64) : a &&& 0x8000000000000000 = 0 ↔ a.toNat < 2 ^ 63 := by
  have word := a.toNat_lt
  have sign : (0x8000000000000000 : UInt64).toNat = 2 ^ 63 := rfl
  rw [← UInt64.toNat_inj, UInt64.toNat_and, sign, Nat.and_two_pow, Nat.testBit_eq_decide_div_mod_eq,
    UInt64.toNat_zero]
  by_cases set : a.toNat / 2 ^ 63 % 2 = 1
  · simp only [set, decide_true, Bool.toNat_true]
    omega
  · simp only [set, decide_false, Bool.toNat_false]
    omega

/-- The place of a number among all is its word with the bits flipped. -/
theorem place_double (a : UInt64) : place (double a) = (flipBits a).toNat := by
  have word := a.toNat_lt
  unfold flipBits place
  rcases Nat.lt_or_ge a.toNat (2 ^ 63) with lt | ge
  · have flipped : (a ^^^ 0x8000000000000000).toNat = a.toNat ^^^ 2 ^ 63 := UInt64.toNat_xor _ _
    rw [if_pos ((and_sign_eq_zero_iff a).mpr lt), double_of_lt lt, codes_eq, flipped,
      xor_two_pow (by omega), if_pos lt]
    exact Nat.add_comm _ _
  · obtain ⟨h, eq⟩ := double_of_ge ge
    rw [if_neg (fun unset => absurd ((and_sign_eq_zero_iff a).mp unset) (by omega)), eq, codes_eq,
      UInt64.toNat_not]
    simp only [if_true, UInt64.size]
    omega

/-! ## What is written and read -/

/-- A number is written if it is finite. -/
theorem encodeBinary64_of_isFinite {x : Binary Format.binary64} (finite : x.IsFinite) :
    encodeBinary64 x = .ok (encodeNat 8 (place x.canonicalZero)) := by
  have lt := x.isFinite_iff.mp finite
  rw [encodeBinary64, Binary.isNaN_of_lt lt, Binary.isInfinite_of_lt lt]
  rfl

theorem encodeBinary64_eq_error_iff {x : Binary Format.binary64} :
    (∃ e, encodeBinary64 x = .error e) ↔ ¬ x.IsFinite := by
  constructor
  · rintro ⟨e, failed⟩ finite
    rw [encodeBinary64_of_isFinite finite] at failed
    cases failed
  · intro infinite
    cases written : encodeBinary64 x with
    | error e => exact ⟨e, rfl⟩
    | ok digits => exact absurd (x.isFinite_iff.mpr (encodeBinary64_eq_ok written).1) infinite

/-- A number is read from its digits in either case, and from exactly as many as it has. -/
theorem exists_decodeNat_iff (width : Nat) {digits : Bytes} :
    (∃ n, decodeNat width digits = .ok n) ↔
      digits.length = 2 * width ∧ ∀ b ∈ digits, Text.Hex.IsDigit b := by
  rw [← Text.Hex.exists_decode_iff]
  unfold decodeNat
  cases Text.Hex.decode digits with
  | error e => simp
  | ok bytes => by_cases length : bytes.length = width <;> simp [length]

theorem exists_decodeSigned_iff (width : Nat) {digits : Bytes} :
    (∃ n, decodeSigned width digits = .ok n) ↔
      digits.length = 2 * width ∧ ∀ b ∈ digits, Text.Hex.IsDigit b :=
  Outcome.exists_map_iff.trans (exists_decodeNat_iff width)

/-- Machine words are written in the order of their values and read back. The digits of a signed
integer are those of its word with the sign bit flipped. A word of double precision is written exactly
if its exponent is not all ones. A negative zero is made positive, as which it reads back; then the
sign bit is flipped or, under a minus sign, all bits are. Digits in either case are read, exactly as
many as the word has, and nothing else is. -/
theorem order_embedding (m n : Int64) (i j : Int32) (a b : UInt64) (digits : Bytes) :
    let width (w : Nat) := digits.length = w ∧ ∀ d ∈ digits, Text.Hex.IsDigit d
    (encodeInt64 m = encodeNat 8 (m.toUInt64 ^^^ 0x8000000000000000).toNat
      ∧ (encodeInt64 m < encodeInt64 n ↔ m < n) ∧ decodeInt64 (encodeInt64 m) = .ok m)
    ∧ (encodeInt32 i = encodeNat 4 (i.toUInt32 ^^^ 0x80000000).toNat
      ∧ (encodeInt32 i < encodeInt32 j ↔ i < j) ∧ decodeInt32 (encodeInt32 i) = .ok i)
    ∧ ((double a).IsFinite → (double b).IsFinite → ∃ x y,
        encodeBinary64 (double a) = .ok x ∧ encodeBinary64 (double b) = .ok y
        ∧ x = encodeNat 8 (flipBits (plainZero a)).toNat
        ∧ (x < y ↔ (double a).value < (double b).value)
        ∧ (x = y ↔ (double a).value = (double b).value)
        ∧ (decodeBinary64 x).map Binary.toBits = .ok (plainZero a).toNat)
    ∧ ((∃ e, encodeBinary64 (double a) = .error e) ↔ ¬ (double a).IsFinite)
    ∧ ((∃ k, decodeInt64 digits = .ok k) ↔ width 16)
    ∧ ((∃ k, decodeInt32 digits = .ok k) ↔ width 8)
    ∧ ((∃ k, decodeBinary64 digits = .ok k) ↔ width 16) := by
  intro width
  refine ⟨⟨encodeSigned_eq 8 m.toBitVec, ?_, decodeInt64_encodeInt64 m⟩,
    ⟨encodeSigned_eq 4 i.toBitVec, ?_, decodeInt32_encodeInt32 i⟩, fun finite finite' => ?_,
    encodeBinary64_eq_error_iff, ?_, ?_, ?_⟩
  · rw [encodeInt64_lt_iff, Int64.lt_iff_toInt_lt]
  · rw [encodeInt32_lt_iff, Int32.lt_iff_toInt_lt]
  · have hx := encodeBinary64_of_isFinite finite
    have hy := encodeBinary64_of_isFinite finite'
    refine ⟨_, _, hx, hy, ?_, encodeBinary64_lt_iff hx hy, encodeBinary64_eq_iff hx hy, ?_⟩
    · rw [canonicalZero_double, place_double]
    · rw [decodeBinary64_encodeBinary64 hx, canonicalZero_double, Outcome.map_ok, toBits_double]
  · exact Outcome.exists_map_iff.trans (exists_decodeSigned_iff 8)
  · exact Outcome.exists_map_iff.trans (exists_decodeSigned_iff 4)
  · exact Outcome.exists_map_iff.trans (exists_decodeNat_iff 8)

/-- A negative zero comes before the least positive number and reads back as zero. -/
theorem order_embedding_subnormal :
    (double 0x8000000000000000).IsFinite ∧ (double 1).IsFinite ∧ ∃ x y,
      encodeBinary64 (double 0x8000000000000000) = .ok x ∧ encodeBinary64 (double 1) = .ok y
        ∧ x < y ∧ (decodeBinary64 x).map Binary.toBits = .ok 0 := by
  have finite : (double 0x8000000000000000).IsFinite := by decide
  have finite' : (double 1).IsFinite := by decide
  obtain ⟨_, _, written, _⟩ := order_embedding 0 0 0 0 0x8000000000000000 1 []
  obtain ⟨x, y, hx, hy, _, order, _, back⟩ := written finite finite'
  have below : (double 0x8000000000000000).value < (double 1).value := by
    have zero : double 0x8000000000000000 = ⟨true, 0, by decide⟩ := rfl
    have least : double 1 = ⟨false, 1, by decide⟩ := rfl
    have none : Format.binary64.units 0 = 0 := rfl
    have one : Format.binary64.units 1 = 1 := rfl
    rw [zero, least, Binary.value_eq, Binary.value_eq, div_lt_div_iff_of_pos_right (by positivity)]
    norm_num [none, one]
  exact ⟨finite, finite', x, y, hx, hy, order.mpr below, back⟩

end TripleIndex.OrderedDigits
