/-
  Decimal integers of a bounded range. Reading goes digit by digit and stops at the first
  character that is no digit or takes the number out of range.
-/
import TripleIndex.Numeral.Digits

namespace TripleIndex.Numeral

/-- Why a text is not an integer of the range. -/
inductive IntegerFailure where
  /-- There is no text. -/
  | empty
  /-- A character that is no digit, or a sign alone. -/
  | badDigit
  /-- Above the range. -/
  | tooLarge
  /-- Below the range. -/
  | tooSmall
  deriving DecidableEq

/-- The wording of a failure. -/
def IntegerFailure.message : IntegerFailure → String
  | .empty => "cannot parse integer from empty string"
  | .badDigit => "invalid digit found in string"
  | .tooLarge => "number too large to fit in target type"
  | .tooSmall => "number too small to fit in target type"

/-- Append the digits of `cs` to `n`, staying at or below `high`. -/
def readUpward (high : Int) (n : Int) : List Char → Except IntegerFailure Int
  | [] => .ok n
  | c :: cs =>
    match digitValue? c with
    | none => .error .badDigit
    | some d =>
      if high < n * 10 + d then .error .tooLarge else readUpward high (n * 10 + d) cs

/-- Append the digits of `cs` to `n` below zero, staying at or above `low`. -/
def readDownward (low : Int) (n : Int) : List Char → Except IntegerFailure Int
  | [] => .ok n
  | c :: cs =>
    match digitValue? c with
    | none => .error .badDigit
    | some d =>
      if n * 10 - d < low then .error .tooSmall else readDownward low (n * 10 - d) cs

/-- Read an integer from `low` to `high`, with an optional sign. -/
def readInteger (low high : Int) (cs : List Char) : Except IntegerFailure Int :=
  match cs with
  | [] => .error .empty
  | ['+'] => .error .badDigit
  | ['-'] => .error .badDigit
  | '+' :: ds => readUpward high 0 ds
  | '-' :: ds => readDownward low 0 ds
  | ds => readUpward high 0 ds

end TripleIndex.Numeral
