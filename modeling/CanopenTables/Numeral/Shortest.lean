import CanopenTables.Numeral.Positional
import CanopenTables.Numeral.Binary64

/-!
# The shortest decimal that reads back

A real is written with the fewest significant digits that still denote it: the decimal must lie in
the interval of numbers that round to the real.  The decimal grids `10 ^ j` are tried from coarse to
fine.  On each grid only the real's two neighbours matter, because the interval contains the real;
the first grid with a neighbour inside wins, the nearer neighbour is taken when both are inside, and
the upper one when they are equally near.
-/

namespace CanopenTables.Numeral

/-- A positive decimal `digits * 10 ^ place`. -/
structure DecimalPoint where
  /-- The significant digits as a number. -/
  digits : Nat
  /-- The power of ten of the last digit. -/
  place : Int
  deriving DecidableEq, Repr

/-- The numbers that round to `significand * 2 ^ exponent`, in quarters of the last bit: the real
itself, the two ends, and whether the ends belong to it (they do for an even significand).  Below
the first number of a binade the neighbours stand twice as close. -/
structure RoundingInterval where
  value : Nat
  lower : Nat
  upper : Nat
  closed : Bool
  exponent : Int

/-- The rounding interval of a positive finite real. -/
def RoundingInterval.of (significand : Nat) (exponent : Int) : RoundingInterval :=
  let startsBinade := significand = Binary64.leadingBit ∧ exponent ≠ -1074
  { value := 4 * significand
    lower := if startsBinade then 4 * significand - 1 else 4 * significand - 2
    upper := 4 * significand + 2
    closed := significand % 2 == 0
    exponent := exponent - 2 }

/-- The neighbour on the grid `10 ^ place` that denotes the real, if one does.  All quantities are
brought to one common denominator. -/
def RoundingInterval.gridPoint? (interval : RoundingInterval) (place : Int) :
    Option DecimalPoint :=
  let scale := Nat.pow 2 interval.exponent.toNat * Nat.pow 10 (-place).toNat
  let unit := Nat.pow 2 (-interval.exponent).toNat * Nat.pow 10 place.toNat
  let value := interval.value * scale
  let lower := interval.lower * scale
  let upper := interval.upper * scale
  let below := value / unit
  let above := below + 1
  let belowInside := if interval.closed then lower ≤ below * unit else lower < below * unit
  let aboveInside := if interval.closed then above * unit ≤ upper else above * unit < upper
  if belowInside ∧ (¬ aboveInside ∨ 2 * (value % unit) < unit) then some ⟨below, place⟩
  else if aboveInside then some ⟨above, place⟩
  else none

/-- The grids from above the largest real to below the least one at seventeen digits. -/
def gridPlaces : List Int := (List.range 660).map fun (k : Nat) => 310 - (k : Int)

/-- The shortest decimal that denotes the real `significand * 2 ^ exponent`; zero has none. -/
def shortestDecimal? (significand : Nat) (exponent : Int) : Option DecimalPoint :=
  if significand = 0 then none
  else gridPlaces.findSome? (RoundingInterval.of significand exponent).gridPoint?

/-- A decimal in positional notation, without exponent and without a point when it is whole. -/
def DecimalPoint.text (d : DecimalPoint) : String :=
  let digits := Nat.toDigits 10 d.digits
  if 0 ≤ d.place then String.ofList (digits ++ List.replicate d.place.toNat '0')
  else
    let places := (-d.place).toNat
    let filled := padded (places + 1) digits
    let whole := filled.length - places
    String.ofList (filled.take whole ++ '.' :: filled.drop whole)

/-- A real by the fewest digits that read back. -/
def shortest (x : Binary64) : String :=
  match x.datum with
  | .nan => "NaN"
  | .infinite negative => if negative then "-inf" else "inf"
  | .finite negative significand exponent =>
    (if negative then "-" else "") ++
      ((shortestDecimal? significand exponent).map DecimalPoint.text).getD "0"

end CanopenTables.Numeral
