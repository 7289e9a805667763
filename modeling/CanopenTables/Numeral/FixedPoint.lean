import CanopenTables.Numeral.Positional
import CanopenTables.Numeral.Binary64

/-!
# Six decimal places

Reals are written with exactly six decimal places.  The number is scaled by a million, rounded to
the nearest integer with halves going to the even neighbour, and the point is put six digits from
the end.
-/

namespace CanopenTables.Numeral

def million : Nat := 1000000

/-- A count of millionths, written with a point and six places. -/
def millionths (negative : Bool) (count : Nat) : String :=
  (if negative then "-" else "") ++ decimal (count / million) ++ "." ++
    String.ofList (padded 6 (Nat.toDigits 10 (count % million)))

/-- `significand * 2 ^ exponent` in millionths, rounded to the nearest, halves to even. -/
def roundToMillionths (significand : Nat) (exponent : Int) : Nat :=
  roundHalfEven (significand * Nat.pow 2 exponent.toNat * million) (Nat.pow 2 (-exponent).toNat)

/-- A real with six places.  The sign is that of the word, so zero can carry one. -/
def sixPlaces (x : Binary64) : String :=
  match x.datum with
  | .nan => "NaN"
  | .infinite negative => if negative then "-inf" else "inf"
  | .finite negative significand exponent =>
    millionths negative (roundToMillionths significand exponent)

/-- An integer with six places, after it was rounded to the nearest real. -/
def sixPlacesOfInt (z : Int) : String :=
  millionths (z < 0) (Binary64.nearestNat z.natAbs * million)

end CanopenTables.Numeral
