/-
  Resolvers for texts, numbers and truth values. Blanks around a number or truth value do not
  count; the encoding depends on the number alone.
-/
import TripleIndex.OrderedDigits
import TripleIndex.Numeral.Integer
import TripleIndex.Resolver.Basic
import TripleIndex.Text.Blank
import TripleIndex.Xsd

namespace TripleIndex.Resolver

open Numeral (Binary Format digits integerText readInteger readLiteral)
open Text (quote trim)

/-- Identifiers, as they are. -/
def resource : Resolver where
  datatype := none
  marker := 0x02
  write s := .ok (Text.Utf8.encode s)
  read := readText

/-- Texts, as they are. -/
def string : Resolver where
  datatype := some Xsd.string
  marker := 0x03
  write s := .ok (Text.Utf8.encode s)
  read := readText

/-- The refusal of a text that is not of a datatype, for a reason. -/
def notOfType (data datatype reason : String) : Error :=
  .invalidValue s!"{quote data} as {datatype}: {reason}"

/-- The 64-bit integer of a text. -/
def readInt64 (datatype data : String) : Except Error Int64 :=
  match readInteger Int64.minValue.toInt Int64.maxValue.toInt (trim data.toList) with
  | .ok n => .ok (Int64.ofInt n)
  | .error e => .error (notOfType data datatype e.message)

/-- Integers of 64 bits under the given datatype. -/
def int64 (datatype : String) (marker : UInt8) : Resolver where
  datatype := some datatype
  marker := marker
  write data := (readInt64 datatype data).map OrderedDigits.encodeInt64
  read bytes :=
    (OrderedDigits.decodeInt64 bytes).map fun n => String.ofList (integerText n.toInt)

/-- Integers of 64 bits. -/
def long : Resolver := int64 Xsd.long 0x04

/-- Integers, as far as 64 bits hold them. -/
def integer : Resolver := int64 Xsd.integer 0x05

/-- The 32-bit integer of a text. -/
def readInt32 (data : String) : Except Error Int32 :=
  match readInteger Int32.minValue.toInt Int32.maxValue.toInt (trim data.toList) with
  | .ok n => .ok (Int32.ofInt n)
  | .error e => .error (notOfType data "xsd:int" e.message)

/-- Integers of 32 bits. -/
def int : Resolver where
  datatype := some Xsd.int
  marker := 0x09
  write data := (readInt32 data).map OrderedDigits.encodeInt32
  read bytes :=
    (OrderedDigits.decodeInt32 bytes).map fun n => String.ofList (integerText n.toInt)

/-- The number of format `f` nearest to that of a text. -/
def readBinary (f : Format) (name data : String) : Except Error (Binary f) :=
  match readLiteral (trim data.toList) with
  | .ok l => .ok (Binary.ofLiteral f l)
  | .error e => .error (notOfType data name e.message)

/-- Numbers of double precision. -/
def double : Resolver where
  datatype := some Xsd.double
  marker := 0x06
  write data := readBinary Format.binary64 "xsd:double" data >>= OrderedDigits.encodeBinary64
  read bytes := (OrderedDigits.decodeBinary64 bytes).map Binary.text

/-- Numbers of single precision, stored as the same numbers of double precision. -/
def float : Resolver where
  datatype := some Xsd.float
  marker := 0x08
  write data := do
    let x ← readBinary Format.binary32 "xsd:float" data
    OrderedDigits.encodeBinary64 (x.convert Format.binary64)
  read bytes :=
    (OrderedDigits.decodeBinary64 bytes).map fun x => (x.convert Format.binary32).text

/-- The truth value of a text: its word, or one digit. -/
def readBoolean? (cs : List Char) : Option Bool :=
  if cs = ['t', 'r', 'u', 'e'] ∨ cs = ['1'] then some true
  else if cs = ['f', 'a', 'l', 's', 'e'] ∨ cs = ['0'] then some false
  else none

/-- Truth values, false first. -/
def boolean : Resolver where
  datatype := some Xsd.boolean
  marker := 0x0A
  write data :=
    match readBoolean? (trim data.toList) with
    | some b => .ok [if b then 0x31 else 0x30]
    | none =>
      .error (.invalidValue s!"{quote (String.ofList (trim data.toList))} as xsd:boolean")
  read bytes :=
    if bytes = [0x31] then .ok "true"
    else if bytes = [0x30] then .ok "false"
    else
      let shown := ", ".intercalate (bytes.map fun b => String.ofList (digits b.toNat))
      .error (.decode s!"bad boolean bytes [{shown}]")

end TripleIndex.Resolver
