/-
  UTF-8. `encode` writes each character; `decode` accepts exactly well-formed text and says where
  it stops; `decodeLossy` puts U+FFFD in place of each longest run that no character completes.
-/
import TripleIndex.Bytes

namespace TripleIndex.Text.Utf8

/-- The bytes of one character. -/
def encodeChar (c : Char) : Bytes :=
  let n := c.toNat
  if n < 0x80 then [UInt8.ofNat n]
  else if n < 0x800 then [UInt8.ofNat (0xC0 + n / 0x40), UInt8.ofNat (0x80 + n % 0x40)]
  else if n < 0x10000 then
    [UInt8.ofNat (0xE0 + n / 0x1000), UInt8.ofNat (0x80 + n / 0x40 % 0x40),
      UInt8.ofNat (0x80 + n % 0x40)]
  else
    [UInt8.ofNat (0xF0 + n / 0x40000), UInt8.ofNat (0x80 + n / 0x1000 % 0x40),
      UInt8.ofNat (0x80 + n / 0x40 % 0x40), UInt8.ofNat (0x80 + n % 0x40)]

/-- The bytes of a text. -/
def encode (s : String) : Bytes :=
  s.toList.flatMap encodeChar

/-- What stands at the start of a byte string. The counts exclude the first byte. -/
inductive Lead where
  /-- A whole character and the number of bytes that follow its first one. -/
  | char (c : Char) (tail : Nat)
  /-- A start that no character completes: the bytes to skip after the first one. -/
  | broken (tail : Nat)
  /-- A character that the end of the text cuts off. -/
  | cut
  deriving DecidableEq

/-- The payload of a continuation byte. -/
def tailBits? (b : UInt8) : Option Nat :=
  if 0x80 ≤ b ∧ b ≤ 0xBF then some (b.toNat - 0x80) else none

/-- The payload of a second byte after first byte `a`. Short forms, surrogates and codes above
U+10FFFF are refused here. -/
def secondBits? (a b : UInt8) : Option Nat :=
  if (a = 0xE0 ∧ b < 0xA0) ∨ (a = 0xED ∧ 0x9F < b) ∨ (a = 0xF0 ∧ b < 0x90)
      ∨ (a = 0xF4 ∧ 0x8F < b) then none
  else tailBits? b

/-- Read what starts with byte `a`. -/
def lead (a : UInt8) (rest : Bytes) : Lead :=
  if a < 0x80 then .char (Char.ofNat a.toNat) 0
  else if a < 0xC2 ∨ 0xF4 < a then .broken 0
  else
    match rest with
    | [] => .cut
    | b :: rest =>
      match secondBits? a b with
      | none => .broken 0
      | some y =>
        if a < 0xE0 then .char (Char.ofNat ((a.toNat - 0xC0) * 0x40 + y)) 1
        else
          match rest with
          | [] => .cut
          | c :: rest =>
            match tailBits? c with
            | none => .broken 1
            | some z =>
              if a < 0xF0 then
                .char (Char.ofNat ((a.toNat - 0xE0) * 0x1000 + y * 0x40 + z)) 2
              else
                match rest with
                | [] => .cut
                | d :: _ =>
                  match tailBits? d with
                  | none => .broken 2
                  | some w =>
                    .char (Char.ofNat
                      ((a.toNat - 0xF0) * 0x40000 + y * 0x1000 + z * 0x40 + w)) 3

/-- Why bytes are not text. -/
inductive Failure where
  /-- `count` bytes from `index` on that no character completes. -/
  | invalid (count index : Nat)
  /-- A character that starts at `index` and is cut off. -/
  | incomplete (index : Nat)
  deriving DecidableEq

/-- The wording of a failure. -/
def Failure.message : Failure → String
  | .invalid count index => s!"invalid utf-8 sequence of {count} bytes from index {index}"
  | .incomplete index => s!"incomplete utf-8 byte sequence from index {index}"

/-- The characters of well-formed bytes that start at `index` of the whole. -/
def decodeFrom (index : Nat) (bytes : Bytes) : Except Failure (List Char) :=
  match bytes with
  | [] => .ok []
  | a :: rest =>
    match lead a rest with
    | .char c tail =>
      match decodeFrom (index + 1 + tail) (rest.drop tail) with
      | .ok cs => .ok (c :: cs)
      | .error e => .error e
    | .broken tail => .error (.invalid (1 + tail) index)
    | .cut => .error (.incomplete index)
termination_by bytes.length
decreasing_by simp only [List.length_drop, List.length_cons]; omega

/-- The text that well-formed bytes write. -/
def decode (bytes : Bytes) : Except Failure String :=
  (decodeFrom 0 bytes).map String.ofList

/-- The characters of any bytes, with U+FFFD for each part that is not text. -/
def decodeLossyChars (bytes : Bytes) : List Char :=
  match bytes with
  | [] => []
  | a :: rest =>
    match lead a rest with
    | .char c tail => c :: decodeLossyChars (rest.drop tail)
    | .broken tail => '\uFFFD' :: decodeLossyChars (rest.drop tail)
    | .cut => ['\uFFFD']
termination_by bytes.length
decreasing_by all_goals simp only [List.length_drop, List.length_cons]; omega

/-- The text of any bytes, with U+FFFD for each part that is not text. -/
def decodeLossy (bytes : Bytes) : String :=
  String.ofList (decodeLossyChars bytes)

end TripleIndex.Text.Utf8
