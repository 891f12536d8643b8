/-
  Hexadecimal digits read back (`decode_encode`) and are all ASCII digits or letters from `a` to
  `f` (`mem_encode`), so that none of the bytes with a meaning in keys occurs among them. They
  compare as the bytes that they write (`encode_lt_encode_iff`). What is read as bytes are pairs of
  digits of either case, and nothing else (`exists_decode_iff`).
-/
import Mathlib
import TripleIndex.Proofs.Bytes
import TripleIndex.Proofs.Outcome
import TripleIndex.Text.Hex

namespace TripleIndex.Text.Hex

theorem digitValue?_digit {n : Nat} (h : n < 16) : digitValue? (digit n) = some n := by
  interval_cases n <;> decide

theorem digit_bounds {n : Nat} (h : n < 16) : 0x30 ≤ digit n ∧ digit n ≤ 0x66 := by
  interval_cases n <;> decide

theorem encode_cons (b : UInt8) (bytes : Bytes) :
    encode (b :: bytes) = digit (b.toNat / 16) :: digit (b.toNat % 16) :: encode bytes := rfl

theorem mem_encode {bytes : Bytes} {d : UInt8} (h : d ∈ encode bytes) : 0x30 ≤ d ∧ d ≤ 0x66 := by
  obtain ⟨b, _, hd⟩ := List.mem_flatMap.mp h
  have hb := b.toNat_lt
  rcases List.mem_cons.mp hd with rfl | hd
  · exact digit_bounds (by omega)
  · rw [List.mem_singleton.mp hd]
    exact digit_bounds (by omega)

theorem decodePairs_encode (index : Nat) (bytes : Bytes) :
    decodePairs index (encode bytes) = .ok bytes := by
  induction bytes generalizing index with
  | nil => rfl
  | cons b bytes ih =>
    have hb := b.toNat_lt
    have whole : b.toNat / 16 * 16 + b.toNat % 16 = b.toNat := by omega
    rw [encode_cons]
    unfold decodePairs
    rw [digitValue?_digit (show b.toNat / 16 < 16 by omega),
      digitValue?_digit (show b.toNat % 16 < 16 by omega), ih]
    simp only [whole, UInt8.ofNat_toNat]
    rfl

theorem decode_encode (bytes : Bytes) : decode (encode bytes) = .ok bytes := by
  have even : (encode bytes).length % 2 ≠ 1 := by rw [length_encode]; omega
  rw [decode, if_neg even]
  exact decodePairs_encode 0 bytes

/-- Digits are not read if one of the bytes is none. -/
theorem decodePairs_of_mem {digits : Bytes} {b : UInt8} (mem : b ∈ digits)
    (none : digitValue? b = none) (index : Nat) : ∃ e, decodePairs index digits = .error e := by
  fun_induction decodePairs index digits with
  | case1 => cases mem
  | case2 => exact ⟨_, rfl⟩
  | case3 => exact ⟨_, rfl⟩
  | case4 => exact ⟨_, rfl⟩
  | case5 index a c rest x hx y hy ih =>
    rcases List.mem_cons.mp mem with rfl | mem
    · rw [none] at hx
      cases hx
    · rcases List.mem_cons.mp mem with rfl | mem
      · rw [none] at hy
        cases hy
      · obtain ⟨e, failed⟩ := ih mem
        exact ⟨e, by rw [failed]; rfl⟩

theorem decode_of_mem {digits : Bytes} {b : UInt8} (mem : b ∈ digits)
    (none : digitValue? b = none) : ∃ e, decode digits = .error e := by
  unfold decode
  split
  · exact ⟨_, rfl⟩
  · exact decodePairs_of_mem mem none 0

/-! ## What is read -/

/-- A hexadecimal digit of either case. -/
def IsDigit (b : UInt8) : Prop :=
  (0x30 ≤ b ∧ b ≤ 0x39) ∨ (0x61 ≤ b ∧ b ≤ 0x66) ∨ (0x41 ≤ b ∧ b ≤ 0x46)

instance : DecidablePred IsDigit :=
  fun _ => inferInstanceAs (Decidable (_ ∨ _))

theorem digitValue?_eq_none_iff (b : UInt8) : digitValue? b = none ↔ ¬ IsDigit b := by
  unfold digitValue? IsDigit
  split
  · next decimal => simp [decimal]
  · next decimal =>
    split
    · next lower => simp [lower]
    · next lower =>
      split
      · next upper => simp [upper]
      · next upper => simp [decimal, lower, upper]

/-- Pairs of digits are read. -/
theorem decodePairs_of_isDigit {digits : Bytes} (h : ∀ b ∈ digits, IsDigit b)
    (even : digits.length % 2 = 0) (index : Nat) :
    ∃ bytes, decodePairs index digits = .ok bytes := by
  have none {b : UInt8} (mem : b ∈ digits) : digitValue? b ≠ none :=
    fun none => (digitValue?_eq_none_iff b).mp none (h b mem)
  fun_induction decodePairs index digits with
  | case1 => exact ⟨_, rfl⟩
  | case2 => cases even
  | case3 index a b rest first => exact absurd first (none (by simp))
  | case4 index a b rest x _ second => exact absurd second (none (by simp))
  | case5 index a b rest x hx y hy ih =>
    have pairs : rest.length % 2 = 0 := by
      rw [List.length_cons, List.length_cons] at even
      omega
    obtain ⟨bytes, read⟩ := ih (fun b mem => h b (by simp [mem])) pairs
      fun mem => none (by simp [mem])
    exact ⟨_, by rw [read]; rfl⟩

/-- Each byte is read from two digits. -/
theorem length_of_decodePairs {digits bytes : Bytes} {index : Nat}
    (h : decodePairs index digits = .ok bytes) : digits.length = 2 * bytes.length := by
  fun_induction decodePairs index digits generalizing bytes with
  | case1 =>
    cases h
    rfl
  | case2 => cases h
  | case3 => cases h
  | case4 => cases h
  | case5 index a b rest x hx y hy ih =>
    obtain ⟨bytes', read, rfl⟩ := Outcome.map_eq_ok.mp h
    rw [List.length_cons, List.length_cons, List.length_cons, ih read]
    omega

/-- Bytes are read from twice as many digits, in either case, and from nothing else. -/
theorem exists_decode_iff {digits : Bytes} {n : Nat} :
    (∃ bytes, decode digits = .ok bytes ∧ bytes.length = n) ↔
      digits.length = 2 * n ∧ ∀ b ∈ digits, IsDigit b := by
  constructor
  · rintro ⟨bytes, read, rfl⟩
    have all (b : UInt8) (mem : b ∈ digits) : IsDigit b := by
      by_contra not
      obtain ⟨e, failed⟩ := decode_of_mem mem ((digitValue?_eq_none_iff b).mpr not)
      rw [read] at failed
      cases failed
    unfold decode at read
    split at read
    · cases read
    · exact ⟨length_of_decodePairs read, all⟩
  · rintro ⟨length, all⟩
    have even : digits.length % 2 = 0 := by omega
    obtain ⟨bytes, read⟩ := decodePairs_of_isDigit all even 0
    have pairs := length_of_decodePairs read
    exact ⟨bytes, by rw [decode, if_neg (by omega), read], by omega⟩

/-- Letters of both cases are read, up to `f`. -/
example : decode [0x61, 0x46] = .ok [0xAF] ∧ ¬ IsDigit 0x67
    ∧ decode [0x61, 0x67] = .error (.character 0x67 1) := by decide

/-! ## Order -/

theorem digit_lt_digit {m n : Nat} (lt : m < n) (h : n < 16) : digit m < digit n := by
  unfold digit
  rw [UInt8.lt_iff_toNat_lt]
  split <;> split <;> simp only [UInt8.toNat_ofNat'] <;> omega

/-- Digits compare as the bytes that they write. -/
theorem encode_lt_encode_iff (a b : Bytes) : encode a < encode b ↔ a < b := by
  refine Bytes.flatMap_lt_flatMap_iff (fun _ => List.cons_ne_nil _ _) (fun x y lt t u => ?_) a b
  have hx := x.toNat_lt
  have hy := y.toNat_lt
  rw [UInt8.lt_iff_toNat_lt] at lt
  simp only [List.cons_append, List.nil_append, List.cons_lt_cons_iff]
  rcases Nat.lt_or_ge (x.toNat / 16) (y.toNat / 16) with high | high
  · exact .inl (digit_lt_digit high (by omega))
  · have same : x.toNat / 16 = y.toNat / 16 := by omega
    exact .inr ⟨by rw [same], .inl (digit_lt_digit (by omega) (by omega))⟩

end TripleIndex.Text.Hex
