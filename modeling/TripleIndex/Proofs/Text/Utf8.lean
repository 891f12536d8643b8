/-
  UTF-8 texts read back (`decode_encode`), so different texts have different bytes
  (`encode_injective`), and no byte of a text reaches `0xFF` (`mem_encode`). Their bytes compare as
  the codes of their characters (`encode_lt_encode_iff`).
-/
import Mathlib
import TripleIndex.Proofs.Bytes
import TripleIndex.Text.Utf8

namespace TripleIndex.Text.Utf8

/-- A character's code lies below or above the surrogates. -/
theorem char_bounds (c : Char) : c.toNat < 0xD800 ∨ 0xDFFF < c.toNat ∧ c.toNat < 0x110000 :=
  c.valid

theorem toNat_ofNat_of_lt {n : Nat} (h : n < 256) : (UInt8.ofNat n).toNat = n := by
  rw [UInt8.toNat_ofNat']
  exact Nat.mod_eq_of_lt h

theorem tailBits?_ofNat {n : Nat} (h : n < 0x40) :
    tailBits? (UInt8.ofNat (0x80 + n)) = some n := by
  have e : (UInt8.ofNat (0x80 + n)).toNat = 0x80 + n := toNat_ofNat_of_lt (by omega)
  have bounds : (0x80 : UInt8) ≤ UInt8.ofNat (0x80 + n) ∧ UInt8.ofNat (0x80 + n) ≤ 0xBF := by
    rw [UInt8.le_iff_toNat_le, UInt8.le_iff_toNat_le, e]
    constructor
    · exact Nat.le_add_right _ _
    · change 0x80 + n ≤ 0xBF
      omega
  rw [tailBits?, if_pos bounds, e, Nat.add_sub_cancel_left]

theorem ofNat_lt_ofNat {m n : Nat} (hm : m < 256) (hn : n < 256) :
    UInt8.ofNat m < UInt8.ofNat n ↔ m < n := by
  rw [UInt8.lt_iff_toNat_lt, toNat_ofNat_of_lt hm, toNat_ofNat_of_lt hn]

/-- The second byte of a character is read if the first one does not rule it out. -/
theorem secondBits?_ofNat {m n : Nat} (hm : m < 256) (hn : n < 0x40)
    (short3 : m = 0xE0 → 0x20 ≤ n) (surrogate : m = 0xED → n < 0x20)
    (short4 : m = 0xF0 → 0x10 ≤ n) (beyond : m = 0xF4 → n < 0x10) :
    secondBits? (UInt8.ofNat m) (UInt8.ofNat (0x80 + n)) = some n := by
  have eq_iff (k : Nat) (hk : k < 256) : UInt8.ofNat m = UInt8.ofNat k ↔ m = k := by
    rw [← UInt8.toNat_inj, toNat_ofNat_of_lt hm, toNat_ofNat_of_lt hk]
  have e0 := eq_iff 0xE0 (by decide)
  have ed := eq_iff 0xED (by decide)
  have f0 := eq_iff 0xF0 (by decide)
  have f4 := eq_iff 0xF4 (by decide)
  have a0 := ofNat_lt_ofNat (m := 0x80 + n) (n := 0xA0) (by omega) (by decide)
  have n9f := ofNat_lt_ofNat (m := 0x9F) (n := 0x80 + n) (by decide) (by omega)
  have n90 := ofNat_lt_ofNat (m := 0x80 + n) (n := 0x90) (by omega) (by decide)
  have n8f := ofNat_lt_ofNat (m := 0x8F) (n := 0x80 + n) (by decide) (by omega)
  have free : ¬ ((UInt8.ofNat m = 0xE0 ∧ UInt8.ofNat (0x80 + n) < 0xA0)
      ∨ (UInt8.ofNat m = 0xED ∧ 0x9F < UInt8.ofNat (0x80 + n))
      ∨ (UInt8.ofNat m = 0xF0 ∧ UInt8.ofNat (0x80 + n) < 0x90)
      ∨ (UInt8.ofNat m = 0xF4 ∧ 0x8F < UInt8.ofNat (0x80 + n))) := by
    change ¬ ((UInt8.ofNat m = UInt8.ofNat 0xE0 ∧ UInt8.ofNat (0x80 + n) < UInt8.ofNat 0xA0)
      ∨ (UInt8.ofNat m = UInt8.ofNat 0xED ∧ UInt8.ofNat 0x9F < UInt8.ofNat (0x80 + n))
      ∨ (UInt8.ofNat m = UInt8.ofNat 0xF0 ∧ UInt8.ofNat (0x80 + n) < UInt8.ofNat 0x90)
      ∨ (UInt8.ofNat m = UInt8.ofNat 0xF4 ∧ UInt8.ofNat 0x8F < UInt8.ofNat (0x80 + n)))
    rw [e0, ed, f0, f4, a0, n9f, n90, n8f]
    omega
  rw [secondBits?, if_neg free]
  exact tailBits?_ofNat hn

/-- The comparisons of a lead byte are comparisons of numbers. -/
theorem lead_bounds {m : Nat} (hm : m < 256) :
    (UInt8.ofNat m < 0x80 ↔ m < 0x80)
      ∧ (UInt8.ofNat m < 0xC2 ∨ 0xF4 < UInt8.ofNat m ↔ m < 0xC2 ∨ 0xF4 < m)
      ∧ (UInt8.ofNat m < 0xE0 ↔ m < 0xE0) ∧ (UInt8.ofNat m < 0xF0 ↔ m < 0xF0) := by
  have lt (n : Nat) (hn : n < 256) := ofNat_lt_ofNat hm hn
  have gt := ofNat_lt_ofNat (m := 0xF4) (by decide) hm
  exact ⟨lt 0x80 (by decide), or_congr (lt 0xC2 (by decide)) gt, lt 0xE0 (by decide),
    lt 0xF0 (by decide)⟩

/-! ## First bytes, by the number of bytes that follow -/

theorem lead_zero {n : Nat} (high : n < 0x80) (rest : Bytes) :
    lead (UInt8.ofNat n) rest = .char (Char.ofNat n) 0 := by
  obtain ⟨ascii, _⟩ := lead_bounds (m := n) (by omega)
  unfold lead
  rw [if_pos (ascii.mpr high), toNat_ofNat_of_lt (by omega)]

theorem lead_one {n : Nat} (low : 0x80 ≤ n) (high : n < 0x800) (rest : Bytes) :
    lead (UInt8.ofNat (0xC0 + n / 0x40)) (UInt8.ofNat (0x80 + n % 0x40) :: rest)
      = .char (Char.ofNat n) 1 := by
  have second := secondBits?_ofNat (m := 0xC0 + n / 0x40) (n := n % 0x40) (by omega)
    (by omega) (by omega) (by omega) (by omega) (by omega)
  have code : (0xC0 + n / 0x40 - 0xC0) * 0x40 + n % 0x40 = n := by omega
  obtain ⟨ascii, stray, one, _⟩ := lead_bounds (m := 0xC0 + n / 0x40) (by omega)
  unfold lead
  rw [if_neg (by rw [ascii]; omega), if_neg (by rw [stray]; omega)]
  simp only [second]
  rw [if_pos (by rw [one]; omega), toNat_ofNat_of_lt (by omega), code]

theorem lead_two {n : Nat} (low : 0x800 ≤ n) (high : n < 0x10000)
    (valid : n < 0xD800 ∨ 0xDFFF < n) (rest : Bytes) :
    lead (UInt8.ofNat (0xE0 + n / 0x1000))
        (UInt8.ofNat (0x80 + n / 0x40 % 0x40) :: UInt8.ofNat (0x80 + n % 0x40) :: rest)
      = .char (Char.ofNat n) 2 := by
  have second := secondBits?_ofNat (m := 0xE0 + n / 0x1000) (n := n / 0x40 % 0x40) (by omega)
    (by omega) (by omega) (by omega) (by omega) (by omega)
  have third := tailBits?_ofNat (n := n % 0x40) (by omega)
  have code : (0xE0 + n / 0x1000 - 0xE0) * 0x1000 + n / 0x40 % 0x40 * 0x40 + n % 0x40 = n := by
    omega
  obtain ⟨ascii, stray, one, two⟩ := lead_bounds (m := 0xE0 + n / 0x1000) (by omega)
  unfold lead
  rw [if_neg (by rw [ascii]; omega), if_neg (by rw [stray]; omega)]
  simp only [second, third]
  rw [if_neg (by rw [one]; omega), if_pos (by rw [two]; omega), toNat_ofNat_of_lt (by omega), code]

theorem lead_three {n : Nat} (low : 0x10000 ≤ n) (high : n < 0x110000) (rest : Bytes) :
    lead (UInt8.ofNat (0xF0 + n / 0x40000))
        (UInt8.ofNat (0x80 + n / 0x1000 % 0x40) :: UInt8.ofNat (0x80 + n / 0x40 % 0x40)
          :: UInt8.ofNat (0x80 + n % 0x40) :: rest)
      = .char (Char.ofNat n) 3 := by
  have second := secondBits?_ofNat (m := 0xF0 + n / 0x40000) (n := n / 0x1000 % 0x40) (by omega)
    (by omega) (by omega) (by omega) (by omega) (by omega)
  have third := tailBits?_ofNat (n := n / 0x40 % 0x40) (by omega)
  have fourth := tailBits?_ofNat (n := n % 0x40) (by omega)
  have code : (0xF0 + n / 0x40000 - 0xF0) * 0x40000 + n / 0x1000 % 0x40 * 0x1000
      + n / 0x40 % 0x40 * 0x40 + n % 0x40 = n := by omega
  obtain ⟨ascii, stray, one, two⟩ := lead_bounds (m := 0xF0 + n / 0x40000) (by omega)
  unfold lead
  rw [if_neg (by rw [ascii]; omega), if_neg (by rw [stray]; omega)]
  simp only [second, third, fourth]
  rw [if_neg (by rw [one]; omega), if_neg (by rw [two]; omega), toNat_ofNat_of_lt (by omega), code]

/-! ## Texts -/

/-- The bytes of a character lead to that character, whatever comes after them. -/
theorem lead_encodeChar (c : Char) :
    ∃ a tail, encodeChar c = a :: tail ∧
      ∀ rest, lead a (tail ++ rest) = .char c tail.length := by
  have bounds := char_bounds c
  have same : Char.ofNat c.toNat = c := Char.ofNat_toNat c
  generalize hn : c.toNat = n at bounds same
  unfold encodeChar
  simp only [hn]
  subst same
  by_cases h1 : n < 0x80
  · exact ⟨_, _, if_pos h1, lead_zero h1⟩
  rw [if_neg h1]
  by_cases h2 : n < 0x800
  · exact ⟨_, _, if_pos h2, lead_one (Nat.not_lt.mp h1) h2⟩
  rw [if_neg h2]
  by_cases h3 : n < 0x10000
  · exact ⟨_, _, if_pos h3, lead_two (Nat.not_lt.mp h2) h3 (bounds.imp_right And.left)⟩
  · exact ⟨_, _, if_neg h3, lead_three (Nat.not_lt.mp h3) (by omega)⟩

theorem decodeFrom_encodeChar (index : Nat) (c : Char) (rest : Bytes) :
    ∃ later, decodeFrom index (encodeChar c ++ rest) = (decodeFrom later rest).map (c :: ·) := by
  obtain ⟨a, tail, he, hl⟩ := lead_encodeChar c
  refine ⟨index + 1 + tail.length, ?_⟩
  rw [he, List.cons_append, decodeFrom]
  simp only [hl, List.drop_left]
  cases decodeFrom (index + 1 + tail.length) rest with
  | ok cs => rfl
  | error e => rfl

theorem decodeFrom_flatMap (index : Nat) (cs : List Char) :
    decodeFrom index (cs.flatMap encodeChar) = .ok cs := by
  induction cs generalizing index with
  | nil => simp [decodeFrom]
  | cons c cs ih =>
    obtain ⟨later, h⟩ := decodeFrom_encodeChar index c (cs.flatMap encodeChar)
    rw [List.flatMap_cons, h, ih]
    rfl

theorem decode_encode (s : String) : decode (encode s) = .ok s := by
  rw [decode, encode, decodeFrom_flatMap]
  exact congrArg Except.ok String.ofList_toList

theorem encode_injective {s t : String} (h : encode s = encode t) : s = t := by
  have hs := decode_encode s
  rw [h, decode_encode] at hs
  exact (Except.ok.inj hs).symm

theorem mem_encodeChar {c : Char} {b : UInt8} (h : b ∈ encodeChar c) : b < 0xFF := by
  have bounds := char_bounds c
  have below {n : Nat} (hn : n < 0xFF) : UInt8.ofNat n < 0xFF :=
    (ofNat_lt_ofNat (by omega) (by decide)).mpr hn
  unfold encodeChar at h
  simp only at h
  split at h
  · rw [List.mem_singleton.mp h]
    exact below (by omega)
  · split at h
    · simp only [List.mem_cons, List.not_mem_nil, or_false] at h
      rcases h with rfl | rfl <;> exact below (by omega)
    · split at h
      · simp only [List.mem_cons, List.not_mem_nil, or_false] at h
        rcases h with rfl | rfl | rfl <;> exact below (by omega)
      · simp only [List.mem_cons, List.not_mem_nil, or_false] at h
        rcases h with rfl | rfl | rfl | rfl <;> exact below (by omega)

/-- No byte of a text reaches the ceiling of keys. -/
theorem mem_encode {s : String} {b : UInt8} (h : b ∈ encode s) : b < 0xFF := by
  obtain ⟨c, _, hb⟩ := List.mem_flatMap.mp h
  exact mem_encodeChar hb

theorem encode_append (s t : String) : encode (s ++ t) = encode s ++ encode t := by
  unfold encode
  rw [String.toList_append, List.flatMap_append]

/-- Bytes of seven bits are those of a text. -/
theorem exists_encode_of_lt {bytes : Bytes} (h : ∀ b ∈ bytes, b < 0x80) :
    ∃ s, encode s = bytes := by
  induction bytes with
  | nil => exact ⟨"", rfl⟩
  | cons b bytes ih =>
    obtain ⟨s, written⟩ := ih fun b mem => h b (List.mem_cons_of_mem _ mem)
    have low : b.toNat < 0x80 := UInt8.lt_iff_toNat_lt.mp (h b List.mem_cons_self)
    have code : (Char.ofNat b.toNat).toNat = b.toNat := by
      rw [Char.toNat_ofNat, if_pos (.inl (by omega))]
    have char : encodeChar (Char.ofNat b.toNat) = [b] := by
      unfold encodeChar
      simp only [code, if_pos low, UInt8.ofNat_toNat]
    refine ⟨String.ofList (Char.ofNat b.toNat :: s.toList), ?_⟩
    rw [encode, String.toList_ofList, List.flatMap_cons, char, ← written]
    rfl

/-! ## Order -/

/-- Of two characters the lesser has the lesser bytes, whatever comes after them: either its first
byte is less, since it announces fewer bytes, or both have as many bytes, highest bits first. -/
theorem encodeChar_append_lt {c d : Char} (lt : c < d) (t u : Bytes) :
    encodeChar c ++ t < encodeChar d ++ u := by
  have hc := char_bounds c
  have hd := char_bounds d
  have lt : c.toNat < d.toNat := lt
  -- the places of six bits, one inside the other
  have places (n : Nat) : n / 0x1000 = n / 0x40 / 0x40 ∧ n / 0x40000 = n / 0x40 / 0x40 / 0x40 := by
    omega
  unfold encodeChar
  simp only [places]
  generalize c.toNat = m at *
  generalize d.toNat = n at *
  split_ifs <;>
    simp only [List.cons_append, List.nil_append, List.cons_lt_cons_iff, ← UInt8.toNat_inj,
      UInt8.lt_iff_toNat_lt, UInt8.toNat_ofNat'] <;>
    omega

/-- The bytes of texts compare as the texts do by the codes of their characters. -/
theorem encode_lt_encode_iff (s t : String) : encode s < encode t ↔ s.toList < t.toList := by
  refine Bytes.flatMap_lt_flatMap_iff (fun c => ?_) (fun c d lt => encodeChar_append_lt lt) _ _
  obtain ⟨a, tail, he, _⟩ := lead_encodeChar c
  rw [he]
  exact List.cons_ne_nil a tail

end TripleIndex.Text.Utf8
