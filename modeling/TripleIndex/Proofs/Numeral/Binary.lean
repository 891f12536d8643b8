/-
  Floating-point numbers: rounding gives back what needs no rounding, and texts read back.

  * `nearest_units`: the number nearest to the value of a code is that code.
  * `units_nearest`: a value of few enough significant bits is not changed by rounding to a finite
    number, so widening and narrowing again changes nothing (`convert_convert`).
  * `nearestDecimal_shortest`: the shortest digits of a code read back as that code.
  * `readLiteral_text`: so does the text of a finite number.
-/
import Mathlib
import TripleIndex.Numeral.Binary
import TripleIndex.Proofs.Numeral.Digits

namespace TripleIndex.Numeral

/-- A whole number of steps is not rounded. -/
theorem Halfway.round_mul (halfway : Halfway) (q : Nat) {d : Nat} (pos : 0 < d) :
    halfway.round (q * d) d = q := by
  simp [Halfway.round, Nat.mul_div_cancel q pos, Nat.mul_mod_left, pos]

/-- Rounding gives one of the two neighbours. -/
theorem Halfway.round_eq_or (halfway : Halfway) (n d : Nat) :
    halfway.round n d = n / d ∨ halfway.round n d = n / d + 1 := by
  unfold Halfway.round
  simp only
  split
  · exact .inl rfl
  · split
    · exact .inr rfl
    · cases halfway with
      | up => exact .inr rfl
      | even => simp only; omega

namespace Format

variable (f : Format)

theorem step_eq : f.step = 2 ^ f.fractionBits := rfl

/-! ## Codes and their values -/

/-- A code is a number of orders of magnitude and a significand of one bit more than a fraction. -/
theorem code_eq (code : Nat) :
    ∃ m, code = f.shift code * f.step + m ∧ f.units code = m * 2 ^ f.shift code ∧
      m < 2 * f.step ∧ (f.shift code = 0 ∨ f.step ≤ m) := by
  have pos := f.step_pos
  have division := Nat.div_add_mod code f.step
  have small := Nat.mod_lt code pos
  rcases hk : code / f.step with _ | k
  · have shift : f.shift code = 0 := by rw [Format.shift, hk]
    rw [hk] at division
    refine ⟨code, by simp [shift], by simp [units, shift], by omega, .inl shift⟩
  · have shift : f.shift code = k := by rw [Format.shift, hk, Nat.add_sub_cancel]
    rw [hk, Nat.mul_add, Nat.mul_comm, Nat.mul_one] at division
    refine ⟨code - k * f.step, ?_, ?_, by omega, .inr (by omega)⟩
    · rw [shift]; omega
    · rw [units, shift]; rfl

/-- The value of a code that is given by its order of magnitude and significand. -/
theorem units_mk {s q : Nat} (top : q < 2 * f.step) (normal : s = 0 ∨ f.step ≤ q) :
    f.units (s * f.step + q) = q * 2 ^ s := by
  have pos := f.step_pos
  have shift : f.shift (s * f.step + q) = s := by
    unfold Format.shift
    rw [Nat.add_comm, Nat.add_mul_div_right _ _ pos]
    rcases normal with rfl | normal
    · have : q / f.step < 2 := Nat.div_lt_of_lt_mul (by rwa [Nat.mul_comm])
      omega
    · have : q / f.step = 1 := Nat.div_eq_of_lt_le (by omega) (by omega)
      omega
  unfold units
  rw [shift, Nat.add_sub_cancel_left]
  rfl

/-- The order of magnitude of a code is that of its value. -/
theorem log2_units (code : Nat) : (f.units code).log2 - f.fractionBits = f.shift code := by
  obtain ⟨m, _, value, top, normal⟩ := f.code_eq code
  rw [step_eq, ← pow_succ'] at top
  rw [value]
  rcases normal with zero | normal
  · rw [zero, pow_zero, mul_one]
    rcases Nat.eq_zero_or_pos m with rfl | pos
    · simp
    · have := (Nat.log2_lt (by omega)).mpr top
      omega
  · rw [step_eq] at normal
    have ne : m * 2 ^ f.shift code ≠ 0 :=
      Nat.mul_ne_zero (by have := Nat.two_pow_pos f.fractionBits; omega) (by positivity)
    have log : (m * 2 ^ f.shift code).log2 = f.fractionBits + f.shift code := by
      rw [Nat.log2_eq_iff ne, pow_add, pow_succ, pow_add]
      constructor
      · exact Nat.mul_le_mul_right _ normal
      · calc m * 2 ^ f.shift code < 2 ^ (f.fractionBits + 1) * 2 ^ f.shift code :=
              Nat.mul_lt_mul_of_pos_right top (by positivity)
          _ = _ := by ring
    omega

/-! ## Rounding what needs no rounding -/

/-- A whole value whose order of magnitude divides it is not rounded. -/
theorem nearest_of_dvd {num den u : Nat} (pos : 0 < den) (value : num * 2 ^ f.scale = u * den)
    (whole : 2 ^ (u.log2 - f.fractionBits) ∣ u) :
    f.nearest num den = min ((u.log2 - f.fractionBits) * f.step
      + u / 2 ^ (u.log2 - f.fractionBits)) f.infinity := by
  obtain ⟨q, hq⟩ := whole
  have scaled : num * Nat.pow 2 f.scale = u * den := value
  have quotient : u * den / den = u := Nat.mul_div_cancel u pos
  unfold nearest
  simp only [scaled, quotient]
  generalize hs : u.log2 - f.fractionBits = s at hq ⊢
  have regroup : u * den = q * (den * 2 ^ s) := by rw [hq]; ring
  have half := Halfway.even.round_mul q (d := den * 2 ^ s) (by positivity)
  have part : u / 2 ^ s = q := by rw [hq]; exact Nat.mul_div_cancel_left q (by positivity)
  rw [part]
  change min (s * f.step + Halfway.even.round (u * den) (den * 2 ^ s)) f.infinity = _
  rw [regroup, half]

/-- The number nearest to the value of a code is that code. -/
theorem nearest_units {code num den : Nat} (bound : code ≤ f.infinity) (pos : 0 < den)
    (value : num * 2 ^ f.scale = f.units code * den) : f.nearest num den = code := by
  obtain ⟨m, split, units, _, _⟩ := f.code_eq code
  have log := f.log2_units code
  have whole : 2 ^ ((f.units code).log2 - f.fractionBits) ∣ f.units code := by
    rw [log, units]
    exact Dvd.intro_left m rfl
  rw [f.nearest_of_dvd pos value whole, log]
  have part : f.units code / 2 ^ f.shift code = m := by
    rw [units]
    exact Nat.mul_div_cancel m (by positivity)
  rw [part, ← split]
  exact Nat.min_eq_left bound

/-- A value with at most one bit more than a fraction is not changed by rounding, unless it is too
large for a finite number. -/
theorem units_nearest {num den m j : Nat} (pos : 0 < den) (few : m < 2 * f.step)
    (value : num * 2 ^ f.scale = m * 2 ^ j * den) (finite : f.nearest num den < f.infinity) :
    f.units (f.nearest num den) = m * 2 ^ j := by
  generalize hu : m * 2 ^ j = u at value ⊢
  generalize hs : u.log2 - f.fractionBits = s
  rw [step_eq, ← pow_succ'] at few
  have whole : 2 ^ s ∣ u := by
    rcases Nat.eq_zero_or_pos u with zero | upos
    · rw [zero]; exact dvd_zero _
    · rcases Nat.eq_zero_or_pos s with hzero | spos
      · rw [hzero, pow_zero]; exact one_dvd u
      · have size : u < 2 ^ (f.fractionBits + 1 + j) := by
          rw [← hu, pow_add]
          exact Nat.mul_lt_mul_of_pos_right few (by positivity)
        have := (Nat.log2_lt (by omega)).mpr size
        have le : s ≤ j := by omega
        rw [← hu]
        exact Dvd.dvd.mul_left (pow_dvd_pow 2 le) m
  have exact := f.nearest_of_dvd pos value (by rw [hs]; exact whole)
  rw [hs] at exact
  rw [exact] at finite ⊢
  have uncapped : s * f.step + u / 2 ^ s < f.infinity := by omega
  rw [Nat.min_eq_left (by omega)]
  have back : u / 2 ^ s * 2 ^ s = u := Nat.div_mul_cancel whole
  have top : u / 2 ^ s < 2 * f.step := by
    rw [step_eq, ← pow_succ', Nat.div_lt_iff_lt_mul (by positivity), ← pow_add]
    rcases Nat.eq_zero_or_pos u with zero | upos
    · rw [zero]; positivity
    · exact (Nat.log2_lt (by omega)).mp (by omega)
  have normal : s = 0 ∨ f.step ≤ u / 2 ^ s := by
    rcases Nat.eq_zero_or_pos s with hzero | spos
    · exact .inl hzero
    · right
      have upos : u ≠ 0 := by rintro rfl; simp at hs; omega
      rw [step_eq, Nat.le_div_iff_mul_le (by positivity), ← pow_add]
      exact (Nat.le_log2 upos).mp (by omega)
  rw [f.units_mk top normal, back]

theorem nearest_zero {den : Nat} (pos : 0 < den) : f.nearest 0 den = 0 :=
  f.nearest_units (Nat.zero_le _) pos (by simp [units, shift])

/-! ## Shortest digits -/

/-- The two neighbours of a value count only if they read back, and so does what lies between. -/
theorem nearestDecimal_of_coarsest? {halfway : Halfway} {code fuel : Nat} {exponent : Int}
    {d : Decimal} (h : f.coarsest? halfway code fuel exponent = some d) :
    f.nearestDecimal d = code := by
  induction fuel generalizing exponent with
  | zero => cases h
  | succ fuel ih =>
    unfold coarsest? at h
    simp only at h
    split at h
    · next low high =>
      cases h
      rcases halfway.round_eq_or (f.units code * Nat.pow 10 (-exponent).toNat)
        (Nat.pow 2 f.scale * Nat.pow 10 exponent.toNat) with e | e <;> rw [e]
      · exact beq_iff_eq.mp low
      · exact beq_iff_eq.mp high
    · next low _ =>
      cases h
      exact beq_iff_eq.mp low
    · next _ high =>
      cases h
      exact beq_iff_eq.mp high
    · exact ih h

theorem nearestDecimal_exact {code : Nat} (bound : code ≤ f.infinity) :
    f.nearestDecimal (f.exact code) = code := by
  have places : (-(-(f.scale : Int))).toNat = f.scale := by omega
  have whole : (-(f.scale : Int)).toNat = 0 := by omega
  refine f.nearest_units bound (Nat.pow_pos (by decide)) ?_
  unfold Decimal.numerator Decimal.denominator exact
  simp only [places, whole]
  change f.units code * 5 ^ f.scale * 10 ^ 0 * 2 ^ f.scale = f.units code * 10 ^ f.scale
  have ten : (10 : Nat) ^ f.scale = 5 ^ f.scale * 2 ^ f.scale := Nat.mul_pow 5 2 f.scale
  rw [ten]
  ring

/-- The shortest digits of a code read back as that code. -/
theorem nearestDecimal_shortest (halfway : Halfway) {code : Nat} (bound : code ≤ f.infinity) :
    f.nearestDecimal (f.shortest halfway code) = code := by
  unfold shortest
  split
  · next zero =>
    rw [zero]
    exact f.nearest_zero (Nat.pow_pos (by decide))
  · simp only
    cases hc : f.coarsest? halfway code 25 (((f.units code).log2 + 1 - f.scale : Int) * 30103
      / 100000 + 1) with
    | none => exact f.nearestDecimal_exact bound
    | some d => exact f.nearestDecimal_of_coarsest? hc

end Format

/-! ## Texts -/

theorem isDigit_point : isDigit '.' = false := by decide

theorem takeWhile_digits {ds : List Char} (rest : List Char) (digit : ∀ c ∈ ds, isDigit c = true)
    (stop : ∀ c ∈ rest.head?, isDigit c = false) : (ds ++ rest).takeWhile isDigit = ds := by
  rw [List.takeWhile_append_of_pos digit]
  cases rest with
  | nil => simp
  | cons c rest => rw [List.takeWhile_cons_of_neg (by simp [stop c rfl]), List.append_nil]

theorem dropWhile_digits {ds : List Char} (rest : List Char) (digit : ∀ c ∈ ds, isDigit c = true)
    (stop : ∀ c ∈ rest.head?, isDigit c = false) : (ds ++ rest).dropWhile isDigit = rest := by
  rw [List.dropWhile_append_of_pos digit]
  cases rest with
  | nil => rfl
  | cons c rest => exact List.dropWhile_cons_of_neg (by simp [stop c rfl])

theorem readDecimal?_digits (ds : List Char) (digit : ∀ c ∈ ds, isDigit c = true) (ne : ds ≠ []) :
    readDecimal? ds = some ⟨ofDigits ds, 0⟩ := by
  have taken := takeWhile_digits [] digit (by simp)
  have dropped := dropWhile_digits [] digit (by simp)
  rw [List.append_nil] at taken dropped
  simp [readDecimal?, taken, dropped, ne, readExponent?]

theorem readDecimal?_point (whole fraction : List Char)
    (digit : ∀ c ∈ whole, isDigit c = true) (digit' : ∀ c ∈ fraction, isDigit c = true)
    (ne : whole ≠ []) :
    readDecimal? (whole ++ '.' :: fraction)
      = some ⟨ofDigits (whole ++ fraction), -fraction.length⟩ := by
  have stop : ∀ c ∈ ('.' :: fraction).head?, isDigit c = false := by
    rintro c ⟨⟩
    exact isDigit_point
  have taken := takeWhile_digits [] digit' (by simp)
  have dropped := dropWhile_digits [] digit' (by simp)
  rw [List.append_nil] at taken dropped
  simp [readDecimal?, takeWhile_digits _ digit stop, dropWhile_digits _ digit stop, taken, dropped, ne,
    readExponent?]

/-- A positional text is digits, with a point before the last of them where the number has a
fraction; all the digits together are the numerator. -/
theorem positional_eq (d : Decimal) :
    ∃ whole fraction, (if 0 ≤ d.exponent then whole else whole ++ '.' :: fraction) = d.positional
      ∧ whole ≠ [] ∧ (∀ c ∈ whole, isDigit c = true) ∧ (∀ c ∈ fraction, isDigit c = true)
      ∧ ofDigits (whole ++ fraction) = d.numerator
      ∧ fraction.length = (-d.exponent).toNat := by
  have digit : ∀ c ∈ digits d.digits, isDigit c = true := fun c => isDigit_of_mem_digits
  have zero : ∀ n, ∀ c ∈ List.replicate n '0', isDigit c = true := by
    intro n c hc
    rw [List.eq_of_mem_replicate hc]
    rfl
  have value := ofDigits_digits d.digits
  unfold Decimal.positional
  simp only
  generalize hds : digits d.digits = ds at digit value ⊢
  have ne : ds ≠ [] := hds ▸ digits_ne_nil _
  by_cases whole : 0 ≤ d.exponent
  · simp only [if_pos whole]
    refine ⟨_, [], rfl, by simp [ne], ?_, by simp, ?_, ?_⟩
    · exact List.forall_mem_append.mpr ⟨digit, zero _⟩
    · simp [Decimal.numerator, ofDigits_append, ofDigits_replicate_zero, value]
    · rw [List.length_nil]
      omega
  · simp only [if_neg whole]
    have numerator : d.numerator = d.digits := by
      have : d.exponent.toNat = 0 := by omega
      simp [Decimal.numerator, this]
    generalize (-d.exponent).toNat = places
    by_cases inside : places < ds.length
    · rw [if_pos inside]
      refine ⟨_, _, rfl, ?_, fun c hc => digit c (List.mem_of_mem_take hc),
        fun c hc => digit c (List.mem_of_mem_drop hc), ?_, ?_⟩
      · intro h
        have := congrArg List.length h
        rw [List.length_take] at this
        simp at this
        omega
      · rw [List.take_append_drop, value, numerator]
      · rw [List.length_drop]
        omega
    · rw [if_neg inside]
      refine ⟨['0'], List.replicate (places - ds.length) '0' ++ ds, rfl, by simp, zero 1,
        List.forall_mem_append.mpr ⟨zero _, digit⟩, ?_, ?_⟩
      · rw [ofDigits_append, ofDigits_append, ofDigits_replicate_zero, value, numerator]
        simp [ofDigits, show digitValue? '0' = some 0 by decide]
      · rw [List.length_append, List.length_replicate]
        omega

/-- What a positional text reads as is the number written, as a fraction. -/
theorem readDecimal?_positional (d : Decimal) :
    ∃ read, readDecimal? d.positional = some read ∧ read.numerator = d.numerator
      ∧ read.denominator = d.denominator := by
  obtain ⟨whole, fraction, text, ne, digit, digit', value, places⟩ := positional_eq d
  rw [← text]
  split
  · next integer =>
    have none : fraction = [] := List.eq_nil_of_length_eq_zero (by omega)
    rw [none, List.append_nil] at value
    refine ⟨_, readDecimal?_digits whole digit ne, ?_, ?_⟩
    · rw [← value]
      simp [Decimal.numerator]
    · rw [none] at places
      simp [Decimal.denominator, ← places]
  · refine ⟨_, readDecimal?_point whole fraction digit digit' ne, ?_, ?_⟩
    · rw [← value]
      simp [Decimal.numerator]
    · rw [Decimal.denominator, Decimal.denominator, ← places, Int.neg_neg, Int.toNat_natCast]

/-- What starts with a sign or is empty is not read as digits. -/
theorem readDecimal?_nil : readDecimal? [] = none := rfl

theorem readDecimal?_sign {c : Char} (h : c = '+' ∨ c = '-') (cs : List Char) :
    readDecimal? (c :: cs) = none := by
  rcases h with rfl | rfl <;> simp [readDecimal?, isDigit, digitValue?]

theorem isBlank_of_mem_positional {d : Decimal} {c : Char} (h : c ∈ d.positional) :
    Text.isBlank c = false := by
  obtain ⟨whole, fraction, text, _, digit, digit', _⟩ := positional_eq d
  rw [← text] at h
  split at h
  · exact isBlank_of_isDigit (digit c h)
  · rcases List.mem_append.mp h with h | h
    · exact isBlank_of_isDigit (digit c h)
    · rcases List.mem_cons.mp h with rfl | h
      · rfl
      · exact isBlank_of_isDigit (digit' c h)

namespace Binary

variable {f : Format}

theorem isNaN_of_lt {x : Binary f} (finite : x.magnitude < f.infinity) : x.isNaN = false := by
  rw [isNaN, decide_eq_false_iff_not]
  omega

theorem isInfinite_of_lt {x : Binary f} (finite : x.magnitude < f.infinity) :
    x.isInfinite = false := by
  rw [isInfinite, beq_eq_false_iff_ne]
  omega

theorem lt_infinity {x : Binary f} (number : x.isNaN = false) (finite : x.isInfinite = false) :
    x.magnitude < f.infinity := by
  rw [isNaN, decide_eq_false_iff_not] at number
  rw [isInfinite, beq_eq_false_iff_ne] at finite
  omega

theorem text_eq {x : Binary f} (finite : x.magnitude < f.infinity) :
    x.text.toList = if x.negative then '-' :: (f.shortest .up x.magnitude).positional
      else (f.shortest .up x.magnitude).positional := by
  rw [text, textWith, isNaN_of_lt finite, isInfinite_of_lt finite]
  exact String.toList_ofList

/-- The text of a finite number reads back as that number. -/
theorem readLiteral_text {x : Binary f} (finite : x.magnitude < f.infinity) :
    ∃ l, readLiteral x.text.toList = .ok l ∧ ofLiteral f l = x := by
  obtain ⟨read, hread, hnum, hden⟩ := readDecimal?_positional (f.shortest .up x.magnitude)
  have back := f.nearestDecimal_shortest .up (Nat.le_of_lt finite)
  rw [Format.nearestDecimal, ← hnum, ← hden] at back
  have unsigned (negative : Bool) :
      readUnsigned? negative (f.shortest .up x.magnitude).positional
        = some (.finite negative read) := by
    rw [readUnsigned?, hread]
  refine ⟨.finite x.negative read, ?_, ?_⟩
  · rw [text_eq finite]
    cases x.negative with
    | true => simp [readLiteral, unsigned]
    | false =>
      rw [if_neg (by decide)]
      unfold readLiteral
      split
      · next h => rw [h, readDecimal?_nil] at hread; cases hread
      · next h => rw [h, readDecimal?_sign (.inr rfl)] at hread; cases hread
      · next h => rw [h, readDecimal?_sign (.inl rfl)] at hread; cases hread
      · rw [unsigned]
  · cases x
    simp only [ofLiteral, nearest, back]

theorem isBlank_of_mem_text {x : Binary f} (finite : x.magnitude < f.infinity) {c : Char}
    (h : c ∈ x.text.toList) : Text.isBlank c = false := by
  rw [text_eq finite] at h
  split at h
  · rcases List.mem_cons.mp h with rfl | h
    · rfl
    · exact isBlank_of_mem_positional h
  · exact isBlank_of_mem_positional h

/-! ## Zeros and conversions -/

theorem canonicalZero_canonicalZero (x : Binary f) :
    x.canonicalZero.canonicalZero = x.canonicalZero := by
  unfold canonicalZero
  split <;> simp

theorem magnitude_canonicalZero (x : Binary f) : x.canonicalZero.magnitude = x.magnitude := by
  unfold canonicalZero
  split <;> rfl

theorem convert_of_lt {g : Format} {x : Binary f} (finite : x.magnitude < f.infinity) :
    x.convert g = nearest g x.negative (f.units x.magnitude) (2 ^ f.scale) := by
  rw [convert, isNaN_of_lt finite, isInfinite_of_lt finite]
  rfl

theorem ofBits_of_lt {n : Nat} (h : n < f.codes) : ofBits f n = ⟨false, n, h⟩ := by
  simp [ofBits, Nat.div_eq_of_lt h, Nat.mod_eq_of_lt h]

theorem ofBits_add_codes {n : Nat} (h : n < f.codes) : ofBits f (n + f.codes) = ⟨true, n, h⟩ := by
  simp [ofBits, Nat.add_div_right n f.codes_pos, Nat.div_eq_of_lt h, Nat.mod_eq_of_lt h]

/-- Widening to a finer format keeps the value, in the smaller units of that format. -/
theorem units_convert {g : Format} (finer : f.fractionBits ≤ g.fractionBits)
    (deeper : f.scale ≤ g.scale) {x : Binary f} (finite : x.magnitude < f.infinity)
    (finite' : (x.convert g).magnitude < g.infinity) :
    g.units (x.convert g).magnitude = f.units x.magnitude * 2 ^ (g.scale - f.scale) := by
  obtain ⟨m, _, units, few, _⟩ := f.code_eq x.magnitude
  have wide : m < 2 * g.step :=
    Nat.lt_of_lt_of_le few (Nat.mul_le_mul_left 2 (Nat.pow_le_pow_right (by decide) finer))
  have scale : (2 : Nat) ^ g.scale = 2 ^ (g.scale - f.scale) * 2 ^ f.scale := by
    rw [← pow_add, Nat.sub_add_cancel deeper]
  have magnitude : (x.convert g).magnitude = g.nearest (f.units x.magnitude) (2 ^ f.scale) := by
    rw [convert_of_lt finite]
    rfl
  rw [magnitude] at finite' ⊢
  rw [units, mul_assoc, ← pow_add]
  refine g.units_nearest (by positivity) wide ?_ (units ▸ finite')
  rw [scale, pow_add]
  ring

theorem negative_convert {g : Format} {x : Binary f} (finite : x.magnitude < f.infinity) :
    (x.convert g).negative = x.negative := by
  rw [convert_of_lt finite]
  rfl

/-- Widening to a finer format and narrowing again changes nothing. -/
theorem convert_convert {g : Format} (finer : f.fractionBits ≤ g.fractionBits)
    (deeper : f.scale ≤ g.scale) {x : Binary f} (finite : x.magnitude < f.infinity)
    (finite' : (x.convert g).magnitude < g.infinity) : (x.convert g).convert f = x := by
  have scale : (2 : Nat) ^ g.scale = 2 ^ (g.scale - f.scale) * 2 ^ f.scale := by
    rw [← pow_add, Nat.sub_add_cancel deeper]
  rw [convert_of_lt finite', negative_convert finite, units_convert finer deeper finite finite']
  have back : f.nearest (f.units x.magnitude * 2 ^ (g.scale - f.scale)) (2 ^ g.scale)
      = x.magnitude := by
    refine f.nearest_units (Nat.le_of_lt finite) (by positivity) ?_
    rw [scale]
    ring
  cases x
  simp only [nearest, back]

end Binary

end TripleIndex.Numeral
