/-!
# Binary floating-point numbers of 64 bits

A `Binary64` is the word itself: a sign bit, an exponent field of 11 bits and a fraction of 52
bits.  `datum` says what the word denotes, as a significand times a power of two, so everything
that is printed from it is computed in exact integer arithmetic.
-/

namespace CanopenTables

/-- A binary floating-point number of 64 bits, given by its word. -/
structure Binary64 where
  /-- Sign, exponent field and fraction, from the top bit down. -/
  bits : UInt64
  deriving DecidableEq, Repr

/-- The quotient rounded to the nearest integer; a half goes to the even neighbour. -/
def roundHalfEven (num den : Nat) : Nat :=
  let quotient := num / den
  let doubled := 2 * (num % den)
  if doubled < den then quotient
  else if den < doubled then quotient + 1
  else if quotient % 2 = 0 then quotient else quotient + 1

namespace Binary64

/-- What a word denotes. -/
inductive Datum where
  /-- Not a number. -/
  | nan
  /-- An infinity. -/
  | infinite (negative : Bool)
  /-- The number `± significand * 2 ^ exponent`; a zero keeps its sign. -/
  | finite (negative : Bool) (significand : Nat) (exponent : Int)
  deriving DecidableEq, Repr

/-- The weight of the bit above the fraction, two to the power of 52. -/
def leadingBit : Nat := 0x10000000000000

def isNegative (x : Binary64) : Bool := x.bits.toNat / 0x8000000000000000 % 2 == 1

def exponentField (x : Binary64) : Nat := x.bits.toNat / leadingBit % 2048

def fraction (x : Binary64) : Nat := x.bits.toNat % leadingBit

/-- An exponent field of 0 holds the numbers below the least normal one, the largest field holds
the infinities and the words that are no number, and every other field adds the leading bit. -/
def datum (x : Binary64) : Datum :=
  if x.exponentField = 2047 then
    if x.fraction = 0 then .infinite x.isNegative else .nan
  else if x.exponentField = 0 then .finite x.isNegative x.fraction (-1074)
  else .finite x.isNegative (leadingBit + x.fraction) (x.exponentField - 1075)

/-- Whether the number is zero or below; a word that is no number is not. -/
def isNonPositive (x : Binary64) : Bool :=
  match x.datum with
  | .nan => false
  | .infinite negative => negative
  | .finite negative significand _ => negative || significand == 0

/-- The natural number nearest to `n` among those with at most 53 significant bits, a half going to
the one with the even significand. -/
def nearestNat (n : Nat) : Nat :=
  let spacing := Nat.pow 2 (n.log2 - 52)
  roundHalfEven n spacing * spacing

end Binary64
end CanopenTables
