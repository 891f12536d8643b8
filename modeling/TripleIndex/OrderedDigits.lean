/-
  Fixed-width texts for numbers whose byte order is numeric order: a number is moved to the
  naturals by an increasing map and written in lowercase hexadecimal, highest digit first.
-/
import TripleIndex.Error
import TripleIndex.Numeral.Binary
import TripleIndex.Text.Hex
import TripleIndex.Text.Utf8

namespace TripleIndex.OrderedDigits

open Numeral (Binary Format)

/-- A natural below `256 ^ width` in `2 * width` hexadecimal digits. -/
def encodeNat (width n : Nat) : Bytes :=
  Text.Hex.encode (Bytes.bigEndian width n)

/-- The natural that exactly `2 * width` hexadecimal digits write. -/
def decodeNat (width : Nat) (digits : Bytes) : Except Error Nat :=
  match Text.Hex.decode digits with
  | .error e =>
    .error (.decode s!"bad hex {Text.quote (Text.Utf8.decodeLossy digits)}: {e.message}")
  | .ok bytes =>
    if bytes.length = width then .ok bytes.toNat
    else .error (.decode s!"expected {2 * width} hex digits, found {2 * bytes.length}")

/-- A signed integer of as many bytes, counted from the least one. -/
def encodeSigned (width : Nat) (n : BitVec (8 * width)) : Bytes :=
  encodeNat width (n.toInt - (BitVec.intMin (8 * width)).toInt).toNat

/-- The signed integer of its digits. -/
def decodeSigned (width : Nat) (digits : Bytes) : Except Error (BitVec (8 * width)) :=
  (decodeNat width digits).map fun n : Nat =>
    BitVec.ofInt (8 * width) (n + (BitVec.intMin (8 * width)).toInt)

/-- A 64-bit integer in its digits. -/
def encodeInt64 (n : Int64) : Bytes :=
  encodeSigned 8 n.toBitVec

/-- The 64-bit integer of its digits. -/
def decodeInt64 (digits : Bytes) : Except Error Int64 :=
  (decodeSigned 8 digits).map Int64.ofBitVec

/-- A 32-bit integer in its digits. -/
def encodeInt32 (n : Int32) : Bytes :=
  encodeSigned 4 n.toBitVec

/-- The 32-bit integer of its digits. -/
def decodeInt32 (digits : Bytes) : Except Error Int32 :=
  (decodeSigned 4 digits).map Int32.ofBitVec

/-- The place of a number among all. The negative ones take the lower half, the greatest magnitude
first, and the positive ones the upper half. -/
def place (x : Binary Format.binary64) : Nat :=
  let half := Format.binary64.codes
  if x.negative then half - 1 - x.magnitude else half + x.magnitude

/-- The number at a place. -/
def atPlace (n : Nat) : Binary Format.binary64 :=
  let half := Format.binary64.codes
  Binary.ofBits Format.binary64 (if half ≤ n then n - half else 2 * half - 1 - n)

/-- A finite number of double precision. The two zeros have one encoding. -/
def encodeBinary64 (x : Binary Format.binary64) : Except Error Bytes :=
  if x.isNaN then .error (.invalidValue "NaN is not allowed in index values")
  else if x.isInfinite then
    .error (.invalidValue "infinite values are not allowed in index values")
  else .ok (encodeNat 8 (place x.canonicalZero))

/-- The number of double precision of its digits. -/
def decodeBinary64 (digits : Bytes) : Except Error (Binary Format.binary64) :=
  (decodeNat 8 digits).map atPlace

end TripleIndex.OrderedDigits
