/-!
# Numbers as digits

Decimal and hexadecimal texts of natural numbers, most significant digit first and without leading
zeros unless a least width asks for them, and the reader of decimal digit strings.

Main statement: `readDecimal?_decimal` (a printed number reads back).
-/

namespace CanopenTables.Numeral

/-- Fills a text up to a least width by zeros in front. -/
def padded (width : Nat) (digits : List Char) : List Char :=
  List.replicate (width - digits.length) '0' ++ digits

def decimal (n : Nat) : String := String.ofList (Nat.toDigits 10 n)

/-- The decimal digits of a magnitude behind the sign of a negative number. -/
def signedDecimal (z : Int) : String := (if z < 0 then "-" else "") ++ decimal z.natAbs

/-- The hexadecimal digits of a number with the letters `A` to `F`, at least `width` of them. -/
def upperHex (width n : Nat) : String :=
  String.ofList (padded width ((Nat.toDigits 16 n).map Char.toUpper))

/-- The hexadecimal digits of a number with the letters `a` to `f`, at least `width` of them. -/
def lowerHex (width n : Nat) : String := String.ofList (padded width (Nat.toDigits 16 n))

/-- The number that a string of one or more ASCII digits denotes; leading zeros are allowed. -/
def readDecimal? (digits : List Char) : Option Nat :=
  if digits ≠ [] ∧ digits.all Char.isDigit then some (Nat.ofDigitChars 10 digits 0) else none

theorem readDecimal?_decimal (n : Nat) : readDecimal? (decimal n).toList = some n := by
  have hne : Nat.toDigits 10 n ≠ [] := Nat.toDigits_ne_nil
  have hall : (Nat.toDigits 10 n).all Char.isDigit = true :=
    List.all_eq_true.mpr fun _ h => Nat.isDigit_of_mem_toDigits (by decide) (by decide) h
  simp [readDecimal?, decimal, hne, hall]

end CanopenTables.Numeral
