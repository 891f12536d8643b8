/-
  Decimal numbers `digits · 10 ^ exponent`: their positional and compact texts, and the reading
  of number literals with an optional point and exponent.
-/
import TripleIndex.Numeral.Digits

namespace TripleIndex.Numeral

/-- The number `digits · 10 ^ exponent`. -/
structure Decimal where
  digits : Nat
  exponent : Int
  deriving DecidableEq

namespace Decimal

/-- Numerator of the number as a fraction. -/
def numerator (d : Decimal) : Nat :=
  d.digits * Nat.pow 10 d.exponent.toNat

/-- Denominator of the number as a fraction, a power of ten. -/
def denominator (d : Decimal) : Nat :=
  Nat.pow 10 (-d.exponent).toNat

/-- Digits and a point where the number has a fraction; never an exponent. -/
def positional (d : Decimal) : List Char :=
  let ds := Numeral.digits d.digits
  let places := (-d.exponent).toNat
  if 0 ≤ d.exponent then ds ++ List.replicate d.exponent.toNat '0'
  else if places < ds.length then
    ds.take (ds.length - places) ++ '.' :: ds.drop (ds.length - places)
  else '0' :: '.' :: (List.replicate (places - ds.length) '0' ++ ds)

/-- Positional with a fraction from `10⁻⁵` up to `10¹⁶`. Elsewhere one digit, the others behind a
point, and an exponent with its sign. -/
def compact (d : Decimal) : List Char :=
  let ds := Numeral.digits d.digits
  let point := ds.length + d.exponent
  if d.digits = 0 then ['0', '.', '0']
  else if 0 ≤ d.exponent ∧ point ≤ 16 then d.positional ++ ['.', '0']
  else if -5 < point ∧ point ≤ 16 then d.positional
  else
    let fraction := if ds.length = 1 then [] else '.' :: ds.drop 1
    let sign := if 0 < point then ['+'] else []
    ds.take 1 ++ fraction ++ 'e' :: sign ++ integerText (point - 1)

end Decimal

/-- What a number literal writes. -/
inductive Literal where
  | nan
  | infinite (negative : Bool)
  | finite (negative : Bool) (value : Decimal)
  deriving DecidableEq

/-- Why a text is not a number literal. -/
inductive LiteralFailure where
  | empty
  | invalid
  deriving DecidableEq

/-- The wording of a failure. -/
def LiteralFailure.message : LiteralFailure → String
  | .empty => "cannot parse float from empty string"
  | .invalid => "invalid float literal"

/-- The exponent that digits write. Digits past `65536` no longer count: every such number is
out of range in the same direction. -/
def exponentOfDigits (cs : List Char) : Nat :=
  cs.foldl (fun n c => if n < 0x10000 then n * 10 + (digitValue? c).getD 0 else n) 0

/-- The exponent part that is all of `cs`: nothing, or `e`, an optional sign and digits. -/
def readExponent? (cs : List Char) : Option Int :=
  let unsigned (ds : List Char) : Option Nat :=
    if ds ≠ [] ∧ ds.all isDigit then some (exponentOfDigits ds) else none
  match cs with
  | [] => some 0
  | e :: cs =>
    if e = 'e' ∨ e = 'E' then
      match cs with
      | '-' :: ds => (unsigned ds).map fun n => -(n : Int)
      | '+' :: ds => (unsigned ds).map fun n => (n : Int)
      | ds => (unsigned ds).map fun n => (n : Int)
    else none

/-- Digits with an optional point and exponent. At least one digit stands before the exponent. -/
def readDecimal? (cs : List Char) : Option Decimal :=
  let whole := cs.takeWhile isDigit
  let rest := cs.dropWhile isDigit
  let (fraction, rest) :=
    match rest with
    | '.' :: rest => (rest.takeWhile isDigit, rest.dropWhile isDigit)
    | rest => ([], rest)
  if whole = [] ∧ fraction = [] then none
  else (readExponent? rest).map fun e => ⟨ofDigits (whole ++ fraction), e - fraction.length⟩

/-- A number literal without its sign. Names of special values are read in any case. -/
def readUnsigned? (negative : Bool) (cs : List Char) : Option Literal :=
  match readDecimal? cs with
  | some d => some (.finite negative d)
  | none =>
    let name := String.ofList (cs.map Char.toLower)
    if name = "nan" then some .nan
    else if name = "inf" ∨ name = "infinity" then some (.infinite negative)
    else none

/-- Read a number literal with an optional sign. -/
def readLiteral (cs : List Char) : Except LiteralFailure Literal :=
  let accept (l : Option Literal) : Except LiteralFailure Literal :=
    match l with
    | some l => .ok l
    | none => .error .invalid
  match cs with
  | [] => .error .empty
  | '-' :: cs => accept (readUnsigned? true cs)
  | '+' :: cs => accept (readUnsigned? false cs)
  | cs => accept (readUnsigned? false cs)

end TripleIndex.Numeral
