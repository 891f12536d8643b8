/-
  The XML Schema datatypes that literals may carry.
-/
namespace TripleIndex.Xsd

/-- The namespace of the datatypes. -/
def space : String := "http://www.w3.org/2001/XMLSchema#"

/-- Texts. -/
def string : String := "http://www.w3.org/2001/XMLSchema#string"

/-- Truth values. -/
def boolean : String := "http://www.w3.org/2001/XMLSchema#boolean"

/-- Integers, here of 64 bits. -/
def integer : String := "http://www.w3.org/2001/XMLSchema#integer"

/-- Integers of 64 bits. -/
def long : String := "http://www.w3.org/2001/XMLSchema#long"

/-- Integers of 32 bits. -/
def int : String := "http://www.w3.org/2001/XMLSchema#int"

/-- Numbers of double precision. -/
def double : String := "http://www.w3.org/2001/XMLSchema#double"

/-- Numbers of single precision. -/
def float : String := "http://www.w3.org/2001/XMLSchema#float"

/-- Dates with a time of day. -/
def dateTime : String := "http://www.w3.org/2001/XMLSchema#dateTime"

/-- Dates. -/
def date : String := "http://www.w3.org/2001/XMLSchema#date"

/-- The name of a datatype inside the namespace; `none` outside it. -/
def localName? (iri : String) : Option String :=
  (space.toList.isPrefixOf? iri.toList).map String.ofList

end TripleIndex.Xsd
