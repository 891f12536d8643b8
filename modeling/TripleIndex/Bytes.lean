/-
  Byte strings. Keys, row fields and scan bounds are lists of bytes, ordered byte by byte from
  the left, with a proper prefix before its extensions.
-/
namespace TripleIndex

/-- A byte string, ordered lexicographically. -/
abbrev Bytes := List UInt8

namespace Bytes

/-- The bytes that write `n` in base 256, highest first, in exactly `width` places. -/
def bigEndian : Nat → Nat → Bytes
  | 0, _ => []
  | width + 1, n => UInt8.ofNat (n / Nat.pow 256 width) :: bigEndian width (n % Nat.pow 256 width)

/-- The number that a byte string writes in base 256, highest byte first. -/
def toNat (bytes : Bytes) : Nat :=
  bytes.foldl (fun n b => n * 256 + b.toNat) 0

theorem length_bigEndian (width n : Nat) : (bigEndian width n).length = width := by
  induction width generalizing n with
  | zero => rfl
  | succ width ih => simp [bigEndian, ih]

end Bytes

end TripleIndex
