/-
  Fixed-width digits of numbers. A signed integer is written as its word with the sign bit flipped,
  at any width (`encodeSigned_eq`), and from that it reads back (`decodeSigned_encodeSigned`) and
  compares as a number (`encodeSigned_lt_iff`). A number of double precision reads back up to the sign
  of zero (`decodeBinary64_encodeBinary64`) and compares by exact value (`encodeBinary64_lt_iff`).
-/
import Mathlib
import TripleIndex.OrderedDigits
import TripleIndex.Proofs.Bytes
import TripleIndex.Proofs.Numeral.Exact
import TripleIndex.Proofs.Outcome
import TripleIndex.Proofs.Text.Hex

namespace TripleIndex.OrderedDigits

open Numeral (Binary Format)

theorem decodeNat_encodeNat {width n : Nat} (h : n < 256 ^ width) :
    decodeNat width (encodeNat width n) = .ok n := by
  rw [decodeNat, encodeNat, Text.Hex.decode_encode]
  simp [Bytes.length_bigEndian, Bytes.toNat_bigEndian width n h]

/-! ## Signed integers -/

/-- To flip the top bit is to add or to take away its value. -/
theorem xor_two_pow {n k : Nat} (h : n < 2 * 2 ^ k) :
    n ^^^ 2 ^ k = if n < 2 ^ k then n + 2 ^ k else n - 2 ^ k := by
  have unit : 0 < 2 ^ k := Nat.two_pow_pos k
  have top : (n ^^^ 2 ^ k) / 2 ^ k = n / 2 ^ k ^^^ 1 := by
    rw [Nat.xor_div_two_pow, Nat.div_self unit]
  have rest : (n ^^^ 2 ^ k) % 2 ^ k = n % 2 ^ k := by
    rw [Nat.xor_mod_two_pow, Nat.mod_self, Nat.xor_zero]
  have flipped := Nat.div_add_mod (n ^^^ 2 ^ k) (2 ^ k)
  rw [top, rest] at flipped
  split
  · next lt =>
    rw [Nat.div_eq_of_lt lt, Nat.mod_eq_of_lt lt, Nat.zero_xor, Nat.mul_one] at flipped
    omega
  · next ge =>
    have one : n / 2 ^ k = 1 := Nat.div_eq_of_lt_le (by omega) (by omega)
    have own := Nat.div_add_mod n (2 ^ k)
    rw [one] at own flipped
    rw [Nat.xor_self, Nat.mul_zero] at flipped
    omega

/-- To flip the sign bit is to count from the least integer. -/
theorem toNat_xor_intMin {w : Nat} (n : BitVec w) :
    ((n ^^^ BitVec.intMin w).toNat : Int) = n.toInt - (BitVec.intMin w).toInt := by
  cases w with
  | zero => rw [BitVec.eq_nil n]; rfl
  | succ k =>
    have whole : 2 ^ (k + 1) = 2 * 2 ^ k := by rw [Nat.pow_succ, Nat.mul_comm]
    have bound : n.toNat < 2 * 2 ^ k := whole ▸ n.isLt
    have unit : 0 < 2 ^ k := Nat.two_pow_pos k
    have least : (BitVec.intMin (k + 1)).toNat = 2 ^ k := BitVec.toNat_intMin_of_pos k.succ_pos
    rw [BitVec.toNat_xor, BitVec.toInt_eq_toNat_cond, BitVec.toInt_eq_toNat_cond, least, whole,
      xor_two_pow bound]
    split <;> split <;> omega

section Signed

variable (width : Nat) (n : BitVec (8 * width))

/-- The digits of a signed integer are those of its word with the sign bit flipped. -/
theorem encodeSigned_eq :
    encodeSigned width n = encodeNat width (n ^^^ BitVec.intMin (8 * width)).toNat := by
  rw [encodeSigned, ← toNat_xor_intMin, Int.toNat_natCast]

theorem toNat_lt_pow : n.toNat < 256 ^ width := by
  have bytes : (256 : Nat) ^ width = 2 ^ (8 * width) := by rw [Nat.pow_mul]
  exact bytes ▸ n.isLt

theorem decodeSigned_encodeSigned : decodeSigned width (encodeSigned width n) = .ok n := by
  have back : ((n ^^^ BitVec.intMin (8 * width)).toNat : Int) + (BitVec.intMin (8 * width)).toInt
      = n.toInt := by
    rw [toNat_xor_intMin, Int.sub_add_cancel]
  rw [decodeSigned, encodeSigned_eq, decodeNat_encodeNat (toNat_lt_pow width _), Outcome.map_ok, back,
    BitVec.ofInt_toInt]

end Signed

theorem decodeInt64_encodeInt64 (n : Int64) : decodeInt64 (encodeInt64 n) = .ok n := by
  rw [decodeInt64, encodeInt64, decodeSigned_encodeSigned]
  rfl

theorem decodeInt32_encodeInt32 (n : Int32) : decodeInt32 (encodeInt32 n) = .ok n := by
  rw [decodeInt32, encodeInt32, decodeSigned_encodeSigned]
  rfl

/-! ## Numbers of double precision -/

theorem place_lt (x : Binary Format.binary64) : place x < 256 ^ 8 := by
  have h := x.magnitude_lt
  have width : (256 : Nat) ^ 8 = Format.binary64.codes + Format.binary64.codes := rfl
  rw [width, place]
  split <;> omega

theorem atPlace_place (x : Binary Format.binary64) : atPlace (place x) = x := by
  obtain ⟨negative, magnitude, h⟩ := x
  unfold place atPlace
  simp only
  generalize hc : Format.binary64.codes = half
  have h' : magnitude < half := hc ▸ h
  cases negative with
  | true =>
    have below : ¬ half ≤ half - 1 - magnitude := by omega
    have mirror : 2 * half - 1 - (half - 1 - magnitude) = magnitude + half := by omega
    rw [if_pos rfl, if_neg below, mirror, ← hc]
    exact Binary.ofBits_add_codes h
  | false =>
    rw [if_neg Bool.false_ne_true, if_pos (Nat.le_add_right _ _), Nat.add_sub_cancel_left]
    exact Binary.ofBits_of_lt h

/-- Only finite numbers are written, at their place. -/
theorem encodeBinary64_eq_ok {x : Binary Format.binary64} {digits : Bytes}
    (h : encodeBinary64 x = .ok digits) :
    x.magnitude < Format.binary64.infinity ∧ digits = encodeNat 8 (place x.canonicalZero) := by
  unfold encodeBinary64 at h
  split at h
  · cases h
  · next number =>
    split at h
    · cases h
    · next finite =>
      exact ⟨Binary.lt_infinity (by simpa using number) (by simpa using finite),
        (Except.ok.inj h).symm⟩

theorem decodeBinary64_encodeBinary64 {x : Binary Format.binary64} {digits : Bytes}
    (h : encodeBinary64 x = .ok digits) : decodeBinary64 digits = .ok x.canonicalZero := by
  obtain ⟨_, rfl⟩ := encodeBinary64_eq_ok h
  rw [decodeBinary64, decodeNat_encodeNat (place_lt _)]
  exact congrArg Except.ok (atPlace_place _)

/-! ## Bytes that are no digits -/

section NotDigits

variable {digits : Bytes} {b : UInt8}

theorem decodeNat_of_mem (width : Nat) (mem : b ∈ digits) (none : Text.Hex.digitValue? b = none) :
    ∃ message, decodeNat width digits = .error (.decode message) := by
  obtain ⟨e, failed⟩ := Text.Hex.decode_of_mem mem none
  exact ⟨_, by rw [decodeNat, failed]⟩

theorem decodeSigned_of_mem (width : Nat) (mem : b ∈ digits)
    (none : Text.Hex.digitValue? b = none) :
    ∃ message, decodeSigned width digits = .error (.decode message) := by
  obtain ⟨message, failed⟩ := decodeNat_of_mem width mem none
  exact ⟨message, by rw [decodeSigned, failed, Outcome.map_error]⟩

theorem decodeInt64_of_mem (mem : b ∈ digits) (none : Text.Hex.digitValue? b = none) :
    ∃ message, decodeInt64 digits = .error (.decode message) := by
  obtain ⟨message, failed⟩ := decodeSigned_of_mem 8 mem none
  exact ⟨message, by rw [decodeInt64, failed, Outcome.map_error]⟩

theorem decodeInt32_of_mem (mem : b ∈ digits) (none : Text.Hex.digitValue? b = none) :
    ∃ message, decodeInt32 digits = .error (.decode message) := by
  obtain ⟨message, failed⟩ := decodeSigned_of_mem 4 mem none
  exact ⟨message, by rw [decodeInt32, failed, Outcome.map_error]⟩

theorem decodeBinary64_of_mem (mem : b ∈ digits) (none : Text.Hex.digitValue? b = none) :
    ∃ message, decodeBinary64 digits = .error (.decode message) := by
  obtain ⟨message, failed⟩ := decodeNat_of_mem 8 mem none
  exact ⟨message, by rw [decodeBinary64, failed]; rfl⟩

end NotDigits

/-! ## Order -/

theorem encodeNat_lt_iff {width m n : Nat} (hm : m < 256 ^ width) (hn : n < 256 ^ width) :
    encodeNat width m < encodeNat width n ↔ m < n := by
  rw [encodeNat, encodeNat, Text.Hex.encode_lt_encode_iff, Bytes.bigEndian_lt_bigEndian_iff hm hn]

theorem encodeSigned_lt_iff (width : Nat) (m n : BitVec (8 * width)) :
    encodeSigned width m < encodeSigned width n ↔ m.toInt < n.toInt := by
  have first := toNat_xor_intMin m
  have second := toNat_xor_intMin n
  rw [encodeSigned_eq, encodeSigned_eq,
    encodeNat_lt_iff (toNat_lt_pow width _) (toNat_lt_pow width _)]
  omega

theorem encodeInt64_lt_iff (m n : Int64) : encodeInt64 m < encodeInt64 n ↔ m.toInt < n.toInt :=
  encodeSigned_lt_iff 8 m.toBitVec n.toBitVec

theorem encodeInt32_lt_iff (m n : Int32) : encodeInt32 m < encodeInt32 n ↔ m.toInt < n.toInt :=
  encodeSigned_lt_iff 4 m.toBitVec n.toBitVec

/-- Places are in the order of values. Zero alone has two places, of which the negative one is below
the other. -/
theorem place_lt_place_iff {x y : Binary Format.binary64}
    (nonzero : x.negative = true → x.magnitude ≠ 0) : place x < place y ↔ x.value < y.value := by
  have mono {m n : Nat} :
      ((Format.binary64.units m : ℚ) < Format.binary64.units n) ↔ m < n := by
    rw [Nat.cast_lt, Format.binary64.units_strictMono.lt_iff_lt]
  have nonneg (n : Nat) : (0 : ℚ) ≤ Format.binary64.units n := Nat.cast_nonneg _
  have pos {n : Nat} (h : n ≠ 0) : (0 : ℚ) < Format.binary64.units n :=
    lt_of_le_of_lt (nonneg 0) (mono.mpr (Nat.pos_of_ne_zero h))
  have limit := x.magnitude_lt
  have limit' := y.magnitude_lt
  rw [Binary.value_eq, Binary.value_eq, div_lt_div_iff_of_pos_right (by positivity), place, place]
  cases sign : x.negative with
  | false =>
    cases sign' : y.negative with
    | false =>
      simp only [Bool.false_eq_true, if_false, one_mul, mono]
      omega
    | true =>
      have above := nonneg x.magnitude
      have below := nonneg y.magnitude
      refine iff_of_false ?_ ?_
      · simp only [Bool.false_eq_true, if_false, if_true]
        omega
      · simp only [Bool.false_eq_true, if_false, if_true]
        linarith
  | true =>
    have below := pos (nonzero sign)
    cases sign' : y.negative with
    | false =>
      have above := nonneg y.magnitude
      refine iff_of_true ?_ ?_
      · simp only [Bool.false_eq_true, if_false, if_true]
        omega
      · simp only [Bool.false_eq_true, if_false, if_true]
        linarith
    | true =>
      simp only [if_true, neg_mul, one_mul, neg_lt_neg_iff, mono]
      omega

/-- Finite numbers are written in the order of their exact values. -/
theorem encodeBinary64_lt_iff {x y : Binary Format.binary64} {a b : Bytes}
    (hx : encodeBinary64 x = .ok a) (hy : encodeBinary64 y = .ok b) :
    a < b ↔ x.value < y.value := by
  obtain ⟨_, rfl⟩ := encodeBinary64_eq_ok hx
  obtain ⟨_, rfl⟩ := encodeBinary64_eq_ok hy
  rw [encodeNat_lt_iff (place_lt _) (place_lt _), place_lt_place_iff x.canonicalZero_ne_zero,
    Binary.value_canonicalZero, Binary.value_canonicalZero]

/-- Finite numbers have the same digits exactly if they have the same value. -/
theorem encodeBinary64_eq_iff {x y : Binary Format.binary64} {a b : Bytes}
    (hx : encodeBinary64 x = .ok a) (hy : encodeBinary64 y = .ok b) :
    a = b ↔ x.value = y.value := by
  have forward := encodeBinary64_lt_iff hx hy
  have backward := encodeBinary64_lt_iff hy hx
  constructor
  · rintro rfl
    have irrefl : ¬ a < a := List.lt_irrefl _
    exact le_antisymm (not_lt.mp (backward.not.mp irrefl)) (not_lt.mp (forward.not.mp irrefl))
  · intro same
    rw [same] at forward backward
    exact List.le_antisymm (List.not_lt.mp (backward.not.mpr (lt_irrefl _)))
      (List.not_lt.mp (forward.not.mpr (lt_irrefl _)))

end TripleIndex.OrderedDigits
