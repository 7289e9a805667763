import CanopenTables.Numeral.Positional

/-!
# Families of data types

The name of a data type is a word of capital letters and underscores followed by decimal digits.
`Family.classify` tells the supported types from all other names; nothing later looks into a type
name again.
-/

namespace CanopenTables

/-- The characters of the word of a type name. -/
def isTypeLetter (c : Char) : Bool := c.isUpper || c == '_'

/-- A supported data type. -/
inductive Family where
  | unsigned (width : Nat)
  | integer (width : Nat)
  | real (width : Nat)
  /-- A string, with the length that its name declares. -/
  | string (declared : Option Nat)
  | domain
  | boolean
  deriving DecidableEq, Repr

namespace Family

/-- The widths of integers: whole bytes up to eight. -/
def integerWidths : List Nat := [8, 16, 24, 32, 40, 48, 56, 64]

/-- The width that the digits of an integer type denote. -/
def integerWidth? (digits : List Char) : Option Nat :=
  (Numeral.readDecimal? digits).filter (integerWidths.contains ·)

/-- The length that the digits of a string type declare; lengths are words of 64 bits. -/
def declaredLength? (digits : List Char) : Option Nat :=
  (Numeral.readDecimal? digits).filter (· < UInt64.size)

/-- The family of a word and the digits after it. -/
def ofParts? (word : String) (digits : List Char) : Option Family :=
  if word = "UNSIGNED" then (integerWidth? digits).map unsigned
  else if word = "INTEGER" then (integerWidth? digits).map integer
  else if word = "REAL" then
    if digits = ['3', '2'] then some (real 32)
    else if digits = ['6', '4'] then some (real 64)
    else none
  else if word = "VISIBLE_STRING" ∨ word = "OCTET_STRING" then
    if digits = [] then some (string none)
    else (declaredLength? digits).map fun n => string (some n)
  else if word = "DOMAIN" ∧ digits = [] then some domain
  else if word = "BOOLEAN" ∧ digits = [] then some boolean
  else none

/-- The family that a type name denotes, if the type is supported. -/
def classify (name : String) : Option Family :=
  let word := name.toList.takeWhile isTypeLetter
  let digits := name.toList.dropWhile isTypeLetter
  if digits.all Char.isDigit then ofParts? (String.ofList word) digits else none

end Family
end CanopenTables
