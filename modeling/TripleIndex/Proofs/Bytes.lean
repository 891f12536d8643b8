/-
  Byte strings: their lexicographic order under a common prefix, and the base-256 digits of a
  number.

  * `append_lt_append_iff`: a common prefix does not count.
  * `isPrefix_of_between`: what lies between two extensions of a string extends it too.
  * `append_tail_lt_iff`: two fields, each followed by nothing or by a byte below all of theirs,
    compare as fields first. This is why the delimiter keeps keys in the order of their fields.
  * `flatMap_lt_flatMap_iff`: bytes written piece by piece compare as what they are written for.
  * `toNat_bigEndian`: fixed-width digits read back, and compare as the numbers that they write
    (`bigEndian_lt_bigEndian_iff`).
-/
import Mathlib
import TripleIndex.Bytes

namespace TripleIndex.Bytes

/-! ## Order -/

/-- A common prefix does not count in the order. -/
theorem append_lt_append_iff (front a b : Bytes) : front ++ a < front ++ b ↔ a < b := by
  induction front with
  | nil => rfl
  | cons x front ih =>
    rw [List.cons_append, List.cons_append, List.cons_lt_cons_iff, ih]
    constructor
    · rintro (h | ⟨_, h⟩)
      · exact absurd h (UInt8.lt_irrefl x)
      · exact h
    · intro h
      exact .inr ⟨rfl, h⟩

theorem append_le_append_iff (front a b : Bytes) : front ++ a ≤ front ++ b ↔ a ≤ b := by
  rw [← List.not_lt, ← List.not_lt, append_lt_append_iff]

/-- A byte string comes before what goes on behind it. -/
theorem lt_append {bytes more : Bytes} (ne : more ≠ []) : bytes < bytes ++ more := by
  obtain ⟨b, rest, rfl⟩ := List.exists_cons_of_ne_nil ne
  have lt := (append_lt_append_iff bytes [] (b :: rest)).mpr (List.nil_lt_cons _ _)
  rwa [List.append_nil] at lt

/-- What lies between two extensions of a byte string extends it too. -/
theorem isPrefix_of_between {front a b key : Bytes} (lower : front ++ a ≤ key)
    (upper : key < front ++ b) : front <+: key := by
  induction front generalizing key with
  | nil => exact List.nil_prefix
  | cons x front ih =>
    cases key with
    | nil => exact absurd (List.nil_lt_cons _ _) (List.not_lt.mpr lower)
    | cons y key =>
      rw [List.cons_append] at lower upper
      rw [List.cons_le_cons_iff] at lower
      rw [List.cons_lt_cons_iff] at upper
      rcases lower with h | ⟨rfl, lower⟩
      · rcases upper with h' | ⟨rfl, _⟩
        · exact absurd (UInt8.lt_trans h h') (UInt8.lt_irrefl x)
        · exact absurd h (UInt8.lt_irrefl _)
      · rcases upper with h | ⟨_, upper⟩
        · exact absurd h (UInt8.lt_irrefl x)
        · exact List.cons_prefix_cons.mpr ⟨rfl, ih lower upper⟩

/-- Nothing, or something that starts with `b`. -/
def IsTail (b : UInt8) (tail : Bytes) : Prop :=
  tail = [] ∨ ∃ rest, tail = b :: rest

theorem isTail_nil (b : UInt8) : IsTail b [] :=
  .inl rfl

theorem isTail_cons (b : UInt8) (rest : Bytes) : IsTail b (b :: rest) :=
  .inr ⟨rest, rfl⟩

theorem IsTail.append {b : UInt8} {tail : Bytes} (h : IsTail b tail) (rest : Bytes) :
    IsTail b (tail ++ b :: rest) := by
  rcases h with rfl | ⟨tail, rfl⟩
  · exact isTail_cons b rest
  · exact isTail_cons b _

/-- A tail comes before every string that starts with a greater byte. -/
theorem tail_lt_cons {b x : UInt8} {tail rest : Bytes} (h : IsTail b tail) (lt : b < x) :
    tail < x :: rest := by
  rcases h with rfl | ⟨tail, rfl⟩
  · exact List.nil_lt_cons _ _
  · exact List.cons_lt_cons_iff.mpr (.inl lt)

/-- Two fields followed by tails compare as fields, and equal ones by their tails. -/
theorem append_tail_lt_iff {d : UInt8} {f g t u : Bytes} (hf : ∀ b ∈ f, d < b)
    (hg : ∀ b ∈ g, d < b) (ht : IsTail d t) (hu : IsTail d u) :
    f ++ t < g ++ u ↔ f < g ∨ f = g ∧ t < u := by
  induction f generalizing g with
  | nil =>
    cases g with
    | nil => simp
    | cons y g =>
      have lt : t < y :: (g ++ u) := tail_lt_cons ht (hg y List.mem_cons_self)
      simp [lt]
  | cons x f ih =>
    have hx := hf x List.mem_cons_self
    cases g with
    | nil =>
      have lt : u < x :: (f ++ t) := tail_lt_cons hu hx
      have ge : ¬ x :: (f ++ t) < u := List.not_lt.mpr (List.le_of_lt lt)
      simp [ge]
    | cons y g =>
      rw [List.cons_append, List.cons_append, List.cons_lt_cons_iff, List.cons_lt_cons_iff,
        ih (fun b hb => hf b (List.mem_cons_of_mem _ hb))
          (fun b hb => hg b (List.mem_cons_of_mem _ hb)), List.cons.injEq]
      tauto

/-- Fields followed by one tail compare as fields. -/
theorem append_tail_le_iff {d : UInt8} {f g t : Bytes} (hf : ∀ b ∈ f, d < b) (hg : ∀ b ∈ g, d < b)
    (ht : IsTail d t) : f ++ t ≤ g ++ t ↔ f ≤ g := by
  have irrefl : ¬ t < t := List.lt_irrefl _
  rw [← List.not_lt, ← List.not_lt, append_tail_lt_iff hg hf ht ht]
  tauto

theorem append_tail_inj {d : UInt8} {f g t u : Bytes} (hf : ∀ b ∈ f, d < b)
    (hg : ∀ b ∈ g, d < b) (ht : IsTail d t) (hu : IsTail d u) (h : f ++ t = g ++ u) :
    f = g ∧ t = u := by
  have forward := append_tail_lt_iff hf hg ht hu
  have backward := append_tail_lt_iff hg hf hu ht
  rw [h] at forward backward
  have irrefl : ¬ g ++ u < g ++ u := List.lt_irrefl _
  have e : f = g := by
    by_contra ne
    have hfg : ¬ f < g := fun lt => irrefl (forward.mpr (.inl lt))
    have hgf : ¬ g < f := fun lt => irrefl (backward.mpr (.inl lt))
    exact ne (List.le_antisymm (List.not_lt.mp hgf) (List.not_lt.mp hfg))
  subst e
  exact ⟨rfl, List.append_cancel_left h⟩

/-- Strings of codes compare as the strings of what the codes stand for, if of two codes that of the
lesser is below that of the greater whatever comes after them. -/
theorem flatMap_lt_flatMap_iff {α : Type} [LT α] [Std.Asymm (α := α) (· < ·)]
    [Std.Trichotomous (α := α) (· < ·)] {code : α → Bytes} (some : ∀ x, code x ≠ [])
    (mono : ∀ x y, x < y → ∀ t u, code x ++ t < code y ++ u) (xs ys : List α) :
    xs.flatMap code < ys.flatMap code ↔ xs < ys := by
  induction xs generalizing ys with
  | nil =>
    cases ys with
    | nil => exact iff_of_false (List.lt_irrefl _) (List.not_lt_nil _)
    | cons y ys =>
      obtain ⟨b, bytes, hb⟩ := List.exists_cons_of_ne_nil (some y)
      rw [List.flatMap_cons, hb]
      exact iff_of_true (List.nil_lt_cons _ _) (List.nil_lt_cons _ _)
  | cons x xs ih =>
    cases ys with
    | nil => exact iff_of_false (List.not_lt_nil _) (List.not_lt_nil _)
    | cons y ys =>
      have irrefl (z : α) : ¬ z < z := fun lt => Std.Asymm.asymm z z lt lt
      rw [List.flatMap_cons, List.flatMap_cons, List.cons_lt_cons_iff]
      rcases Std.Trichotomous.rel_or_eq_or_rel_swap (r := (· < ·)) (a := x) (b := y) with
        lt | rfl | gt
      · exact iff_of_true (mono x y lt _ _) (.inl lt)
      · rw [append_lt_append_iff, ih]
        exact ⟨fun lt => .inr ⟨rfl, lt⟩, fun h => (h.resolve_left (irrefl x)).2⟩
      · have above := mono y x gt (ys.flatMap code) (xs.flatMap code)
        refine iff_of_false (List.lt_asymm above) ?_
        rintro (lt | ⟨rfl, _⟩)
        · exact Std.Asymm.asymm x y lt gt
        · exact irrefl x gt

/-! ## Digits in base 256 -/

theorem toNat_foldl (bytes : Bytes) (n : Nat) :
    bytes.foldl (fun n b => n * 256 + b.toNat) n = n * 256 ^ bytes.length + toNat bytes := by
  unfold toNat
  induction bytes generalizing n with
  | nil => simp
  | cons b bytes ih =>
    simp only [List.foldl_cons, List.length_cons]
    rw [ih, ih (0 * 256 + b.toNat), pow_succ]
    ring

theorem toNat_cons (b : UInt8) (bytes : Bytes) :
    toNat (b :: bytes) = b.toNat * 256 ^ bytes.length + toNat bytes := by
  have h := toNat_foldl bytes (0 * 256 + b.toNat)
  simpa [toNat] using h

theorem toNat_lt (bytes : Bytes) : toNat bytes < 256 ^ bytes.length := by
  induction bytes with
  | nil => exact Nat.one_pos
  | cons b bytes ih =>
    have digit : b.toNat ≤ 255 := Nat.le_of_lt_succ b.toNat_lt
    calc toNat (b :: bytes)
      _ = b.toNat * 256 ^ bytes.length + toNat bytes := toNat_cons b bytes
      _ ≤ 255 * 256 ^ bytes.length + toNat bytes :=
        Nat.add_le_add_right (Nat.mul_le_mul_right _ digit) _
      _ < 256 ^ (b :: bytes).length := by rw [List.length_cons, pow_succ]; omega

/-- Strings of one length compare as the numbers that they write. -/
theorem lt_iff_toNat_lt {a b : Bytes} (length : a.length = b.length) :
    a < b ↔ toNat a < toNat b := by
  induction a generalizing b with
  | nil =>
    rw [List.eq_nil_of_length_eq_zero length.symm]
    exact iff_of_false (List.lt_irrefl _) (Nat.lt_irrefl _)
  | cons x a ih =>
    cases b with
    | nil => cases length
    | cons y b =>
      have length : a.length = b.length := Nat.succ.inj length
      have ha := toNat_lt a
      have hb := toNat_lt b
      rw [toNat_cons, toNat_cons, List.cons_lt_cons_iff, ih length, ← UInt8.toNat_inj,
        UInt8.lt_iff_toNat_lt, length]
      rw [length] at ha
      generalize 256 ^ b.length = base at ha hb
      constructor
      · rintro (lt | ⟨same, lt⟩)
        · calc x.toNat * base + toNat a
            _ < (x.toNat + 1) * base := by rw [Nat.succ_mul]; omega
            _ ≤ y.toNat * base := Nat.mul_le_mul_right base lt
            _ ≤ y.toNat * base + toNat b := Nat.le_add_right _ _
        · rw [same]
          exact Nat.add_lt_add_left lt _
      · intro lt
        rcases Nat.lt_trichotomy x.toNat y.toNat with less | same | more
        · exact .inl less
        · rw [same] at lt
          exact .inr ⟨same, Nat.lt_of_add_lt_add_left lt⟩
        · have := Nat.mul_le_mul_right base more
          rw [Nat.succ_mul] at this
          omega

/-- A number below `256 ^ width` is what its digits write. -/
theorem toNat_bigEndian (width n : Nat) (h : n < 256 ^ width) :
    toNat (bigEndian width n) = n := by
  induction width generalizing n with
  | zero =>
    have : n = 0 := by simpa using h
    subst this
    rfl
  | succ width ih =>
    have pos : 0 < 256 ^ width := Nat.pow_pos (by decide)
    have top : n / 256 ^ width < 256 := by
      rw [Nat.div_lt_iff_lt_mul pos, mul_comm]
      exact pow_succ 256 width ▸ h
    have digit : (UInt8.ofNat (n / 256 ^ width)).toNat = n / 256 ^ width := by
      rw [UInt8.toNat_ofNat']
      exact Nat.mod_eq_of_lt top
    unfold bigEndian
    rw [toNat_cons, length_bigEndian]
    change (UInt8.ofNat (n / 256 ^ width)).toNat * _ + toNat (bigEndian width (n % 256 ^ width)) = n
    rw [ih _ (Nat.mod_lt _ pos), digit, mul_comm]
    exact Nat.div_add_mod n (256 ^ width)

/-- The digits of numbers compare as the numbers. -/
theorem bigEndian_lt_bigEndian_iff {width m n : Nat} (hm : m < 256 ^ width)
    (hn : n < 256 ^ width) : bigEndian width m < bigEndian width n ↔ m < n := by
  rw [lt_iff_toNat_lt (by rw [length_bigEndian, length_bigEndian]), toNat_bigEndian width m hm,
    toNat_bigEndian width n hn]

end TripleIndex.Bytes
