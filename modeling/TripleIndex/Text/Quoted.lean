/-
  Quoted text, as messages show it: backslash escapes for the quotation mark, the backslash and
  the usual controls, and the code in braces for every other concealed character.
-/
import TripleIndex.Text.Concealed

namespace TripleIndex.Text

/-- A code in lowercase hexadecimal between braces, after a backslash and `u`. -/
def escapedCode (c : Char) : List Char :=
  ['\\', 'u', '\x7b'] ++ Nat.toDigits 16 c.toNat ++ ['\x7d']

/-- The shape of `c` between quotation marks `mark`. -/
def escape (mark c : Char) : List Char :=
  if c = '\x00' then ['\\', '0']
  else if c = '\t' then ['\\', 't']
  else if c = '\r' then ['\\', 'r']
  else if c = '\n' then ['\\', 'n']
  else if c = '\\' ∨ c = mark then ['\\', c]
  else if isConcealed c then escapedCode c
  else [c]

/-- Text between double quotation marks. -/
def quote (s : String) : String :=
  String.ofList ('"' :: s.toList.flatMap (escape '"') ++ ['"'])

/-- A character between single quotation marks. -/
def quoteChar (c : Char) : String :=
  String.ofList ('\'' :: escape '\'' c ++ ['\''])

end TripleIndex.Text
