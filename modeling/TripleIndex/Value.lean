/-
  Values: resources, which are identifiers, and literals, which are a text with a datatype.
  Order is not defined here; it exists only inside one datatype, through the codec.
-/
import TripleIndex.Numeral.Binary
import TripleIndex.Text.Quoted
import TripleIndex.Xsd

namespace TripleIndex

open Numeral (Binary Format integerText)

/-- A resource or a typed literal. -/
inductive Value where
  /-- An identifier: an IRI or a blank node. -/
  | resource (id : String)
  /-- A text and the IRI of its datatype. -/
  | literal (lexical datatype : String)
  deriving DecidableEq

namespace Value

/-- A plain literal, of the string datatype. -/
def plain (lexical : String) : Value :=
  .literal lexical Xsd.string

/-- A 32-bit integer. -/
def int (n : Int32) : Value :=
  .literal (String.ofList (integerText n.toInt)) Xsd.int

/-- A 64-bit integer. -/
def long (n : Int64) : Value :=
  .literal (String.ofList (integerText n.toInt)) Xsd.long

/-- An integer that fits 64 bits. -/
def integer (n : Int64) : Value :=
  .literal (String.ofList (integerText n.toInt)) Xsd.integer

/-- A number of double precision. Negative zero is written as zero. -/
def double (x : Binary Format.binary64) : Value :=
  .literal x.canonicalZero.text Xsd.double

/-- A truth value. -/
def boolean (b : Bool) : Value :=
  .literal (if b then "true" else "false") Xsd.boolean

/-- The identifier that closes open-ended ranges of resources. -/
def topResource : Value :=
  .resource (String.ofList [Char.ofNat 0x10FFFF])

/-- The identifier of a resource or the text of a literal. -/
def data : Value → String
  | .resource id => id
  | .literal lexical _ => lexical

/-- The datatype of a literal. -/
def datatype? : Value → Option String
  | .resource _ => none
  | .literal _ datatype => some datatype

/-- Whether a value is a resource. -/
def isResource : Value → Bool
  | .resource _ => true
  | .literal _ _ => false

/-- Whether two values are ordered against each other: both resources, or of one datatype. -/
def comparable (v w : Value) : Bool :=
  v.datatype? = w.datatype?

/-- A value as messages show it: `<id>`, a quoted text, or a quoted text with its datatype. -/
def display : Value → String
  | .resource id => s!"<{id}>"
  | .literal lexical datatype =>
    if datatype = Xsd.string then Text.quote lexical
    else
      match Xsd.localName? datatype with
      | some name => s!"{Text.quote lexical}^^xsd:{name}"
      | none => s!"{Text.quote lexical}^^<{datatype}>"

end Value

end TripleIndex
