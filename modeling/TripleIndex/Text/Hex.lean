/-
  Hexadecimal. `encode` writes two lowercase digits a byte; `decode` reads digits of either case
  and names the first character that is not one.
-/
import TripleIndex.Bytes
import TripleIndex.Text.Quoted

namespace TripleIndex.Text.Hex

/-- The lowercase digit of a number below sixteen. -/
def digit (n : Nat) : UInt8 :=
  if n < 10 then UInt8.ofNat (0x30 + n) else UInt8.ofNat (0x61 + (n - 10))

/-- Two digits for each byte. -/
def encode (bytes : Bytes) : Bytes :=
  bytes.flatMap fun b => [digit (b.toNat / 16), digit (b.toNat % 16)]

/-- The number that a digit of either case stands for. -/
def digitValue? (b : UInt8) : Option Nat :=
  if 0x30 ≤ b ∧ b ≤ 0x39 then some (b.toNat - 0x30)
  else if 0x61 ≤ b ∧ b ≤ 0x66 then some (b.toNat - 0x61 + 10)
  else if 0x41 ≤ b ∧ b ≤ 0x46 then some (b.toNat - 0x41 + 10)
  else none

/-- Why bytes are not hexadecimal. -/
inductive Failure where
  /-- Digits do not pair up. -/
  | odd
  /-- The byte at `index` is no digit; it is shown as the character of its code. -/
  | character (byte : UInt8) (index : Nat)
  deriving DecidableEq

/-- The wording of a failure. -/
def Failure.message : Failure → String
  | .odd => "Odd number of digits"
  | .character byte index =>
    s!"Invalid character {quoteChar (Char.ofNat byte.toNat)} at position {index}"

/-- Read pairs of digits, the first of which stands at `index`. -/
def decodePairs (index : Nat) : Bytes → Except Failure Bytes
  | [] => .ok []
  | [_] => .error .odd
  | a :: b :: rest =>
    match digitValue? a with
    | none => .error (.character a index)
    | some x =>
      match digitValue? b with
      | none => .error (.character b (index + 1))
      | some y => (decodePairs (index + 2) rest).map (UInt8.ofNat (x * 16 + y) :: ·)

/-- The bytes that digits write. An odd count is reported before any bad digit. -/
def decode (digits : Bytes) : Except Failure Bytes :=
  if digits.length % 2 = 1 then .error .odd else decodePairs 0 digits

theorem length_encode (bytes : Bytes) : (encode bytes).length = 2 * bytes.length := by
  induction bytes with
  | nil => rfl
  | cons b bytes ih =>
    simp only [encode, List.flatMap_cons, List.length_append, List.length_cons] at ih ⊢
    rw [ih]
    simp only [List.length_nil]
    omega

end TripleIndex.Text.Hex
