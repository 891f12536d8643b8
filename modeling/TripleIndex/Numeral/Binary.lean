/-
  Binary floating-point numbers of an interchange format, as a sign and a magnitude code. The
  finite magnitudes are whole multiples of one least unit, so value and rounding are exact
  arithmetic on naturals; numbers are written with the fewest digits that read back.
-/
import TripleIndex.Numeral.Decimal

namespace TripleIndex.Numeral

/-- The widths of the two fields of a magnitude. -/
structure Format where
  fractionBits : Nat
  exponentBits : Nat
  deriving DecidableEq

namespace Format

/-- Single precision. -/
def binary32 : Format := ⟨23, 8⟩

/-- Double precision. -/
def binary64 : Format := ⟨52, 11⟩

/-- Number of codes of one binary order of magnitude. -/
def step (f : Format) : Nat :=
  Nat.pow 2 f.fractionBits

/-- Number of magnitude codes. -/
def codes (f : Format) : Nat :=
  Nat.pow 2 f.exponentBits * f.step

/-- The code of infinity, above every finite code and below every code of no number. -/
def infinity (f : Format) : Nat :=
  (Nat.pow 2 f.exponentBits - 1) * f.step

/-- The least positive number is `2 ^ -scale`. -/
def scale (f : Format) : Nat :=
  Nat.pow 2 (f.exponentBits - 1) + f.fractionBits - 2

/-- Binary places by which the significand of a code is shifted. -/
def shift (f : Format) (code : Nat) : Nat :=
  code / f.step - 1

/-- The value of a finite code as a multiple of the least positive number. -/
def units (f : Format) (code : Nat) : Nat :=
  (code - f.shift code * f.step) * Nat.pow 2 (f.shift code)

theorem step_pos (f : Format) : 0 < f.step :=
  Nat.two_pow_pos f.fractionBits

theorem codes_pos (f : Format) : 0 < f.codes :=
  Nat.mul_pos (Nat.two_pow_pos f.exponentBits) f.step_pos

theorem infinity_lt (f : Format) : f.infinity < f.codes :=
  Nat.mul_lt_mul_of_pos_right (Nat.sub_lt (Nat.two_pow_pos f.exponentBits) Nat.one_pos) f.step_pos

end Format

/-- Where a number halfway between two candidates goes. -/
inductive Halfway where
  | up
  | even
  deriving DecidableEq

/-- A fraction rounded to the nearest natural. -/
def Halfway.round (halfway : Halfway) (numerator denominator : Nat) : Nat :=
  let q := numerator / denominator
  let r := numerator % denominator
  if 2 * r < denominator then q
  else if denominator < 2 * r then q + 1
  else
    match halfway with
    | .up => q + 1
    | .even => q + q % 2

namespace Format

/-- The code of the number nearest to a fraction, a half to the even code. A carry out of the
significand moves to the next exponent by itself; what is too large becomes infinity. -/
def nearest (f : Format) (numerator denominator : Nat) : Nat :=
  let scaled := numerator * Nat.pow 2 f.scale
  let shift := (scaled / denominator).log2 - f.fractionBits
  min (shift * f.step + Halfway.even.round scaled (denominator * Nat.pow 2 shift)) f.infinity

/-- The code of the number nearest to a decimal number. -/
def nearestDecimal (f : Format) (d : Decimal) : Nat :=
  f.nearest d.numerator d.denominator

theorem nearest_lt (f : Format) (numerator denominator : Nat) :
    f.nearest numerator denominator < f.codes :=
  Nat.lt_of_le_of_lt (Nat.min_le_right _ _) f.infinity_lt

/-- The nearest number to `code` on the coarsest decimal grid that has one, among the grids
`10 ^ exponent` downwards. Of the two neighbours of `code` on a grid only those that read back
count, and of two the nearer. -/
def coarsest? (f : Format) (halfway : Halfway) (code : Nat) : Nat → Int → Option Decimal
  | 0, _ => none
  | fuel + 1, exponent =>
    let numerator := f.units code * Nat.pow 10 (-exponent).toNat
    let denominator := Nat.pow 2 f.scale * Nat.pow 10 exponent.toNat
    let below := numerator / denominator
    let low : Decimal := ⟨below, exponent⟩
    let high : Decimal := ⟨below + 1, exponent⟩
    match f.nearestDecimal low == code, f.nearestDecimal high == code with
    | true, true => some ⟨halfway.round numerator denominator, exponent⟩
    | true, false => some low
    | false, true => some high
    | false, false => coarsest? f halfway code fuel (exponent - 1)

/-- A finite code written out in full. -/
def exact (f : Format) (code : Nat) : Decimal :=
  ⟨f.units code * Nat.pow 5 f.scale, -f.scale⟩

/-- The decimal number with the fewest digits that reads back as a finite code. -/
def shortest (f : Format) (halfway : Halfway) (code : Nat) : Decimal :=
  if code = 0 then ⟨0, 0⟩
  else
    let top : Int := ((f.units code).log2 + 1 : Int) - f.scale
    (f.coarsest? halfway code 25 (top * 30103 / 100000 + 1)).getD (f.exact code)

end Format

/-- A floating-point number of format `f`. -/
structure Binary (f : Format) where
  negative : Bool
  magnitude : Nat
  magnitude_lt : magnitude < f.codes
  deriving DecidableEq

namespace Binary

variable {f : Format}

/-- The number whose bits, sign first, are those of `n`. -/
def ofBits (f : Format) (n : Nat) : Binary f :=
  ⟨n / f.codes % 2 == 1, n % f.codes, Nat.mod_lt _ f.codes_pos⟩

/-- The bits of a number, sign first. -/
def toBits (x : Binary f) : Nat :=
  (if x.negative then f.codes else 0) + x.magnitude

/-- Whether the bits stand for no number. -/
def isNaN (x : Binary f) : Bool :=
  f.infinity < x.magnitude

/-- Whether the number is infinite. -/
def isInfinite (x : Binary f) : Bool :=
  x.magnitude == f.infinity

/-- The number with a negative zero made positive. -/
def canonicalZero (x : Binary f) : Binary f :=
  if x.magnitude = 0 then ⟨false, x.magnitude, x.magnitude_lt⟩ else x

/-- The infinite number of a sign. -/
def infinite (f : Format) (negative : Bool) : Binary f :=
  ⟨negative, f.infinity, f.infinity_lt⟩

/-- The code that arithmetic gives for no number, with the top fraction bit set. -/
def quietNaN (f : Format) : Binary f :=
  ofBits f (f.infinity + f.step / 2)

/-- The number nearest to a fraction. -/
def nearest (f : Format) (negative : Bool) (numerator denominator : Nat) : Binary f :=
  ⟨negative, f.nearest numerator denominator, f.nearest_lt numerator denominator⟩

/-- The number that a literal writes. -/
def ofLiteral (f : Format) : Literal → Binary f
  | .nan => quietNaN f
  | .infinite negative => infinite f negative
  | .finite negative d => nearest f negative d.numerator d.denominator

/-- The nearest number of another format. -/
def convert (g : Format) (x : Binary f) : Binary g :=
  if x.isNaN then quietNaN g
  else if x.isInfinite then infinite g x.negative
  else nearest g x.negative (f.units x.magnitude) (Nat.pow 2 f.scale)

/-- A text for a number: the fewest digits that read back, written by `finite`, and the names of the
other numbers. -/
def textWith (halfway : Halfway) (finite : Decimal → List Char) (x : Binary f) : String :=
  if x.isNaN then "NaN"
  else
    let body := if x.isInfinite then ['i', 'n', 'f'] else finite (f.shortest halfway x.magnitude)
    String.ofList (if x.negative then '-' :: body else body)

/-- The number in positional notation. Of two equally near candidates the one of larger size is
written. -/
def text (x : Binary f) : String :=
  x.textWith .up Decimal.positional

/-- The number in compact notation. Of two equally near candidates the even one is written. -/
def compactText (x : Binary f) : String :=
  x.textWith .even Decimal.compact

end Binary

end TripleIndex.Numeral
