import CanopenTables.DataType
import CanopenTables.Error
import CanopenTables.Numeral.FixedPoint
import CanopenTables.Value

/-!
# C literals

The text that a value has in the generated sources depends on the kind of its data type.

* **Strings** stand between quotes as they are.
* **Domains** become a string literal in which every byte is escaped in hexadecimal.
* **Reals** have six decimal places; integers are admitted and rounded to a real first.
* **All other kinds** are integers in hexadecimal, with the decimal magnitude in a comment.
-/

namespace CanopenTables

/-- The text of a value, and what a comment after it says. -/
structure Literal where
  /-- The C expression. -/
  text : String
  /-- Nothing, or white space and a comment. -/
  comment : String
  deriving DecidableEq, Repr

namespace Literal

def bare (text : String) : Literal := ⟨text, ""⟩

def quoted (s : String) : Literal := bare ("\"" ++ s ++ "\"")

/-- The escape of a byte in a string literal. -/
def byteEscape (b : UInt8) : String := "\\x" ++ Numeral.lowerHex 2 b.toNat

/-- A string literal of escaped bytes. -/
def ofBytes (bytes : List UInt8) : Literal := quoted (String.join (bytes.map byteEscape))

/-- An integer in hexadecimal behind its sign; the comment shows the decimal magnitude. -/
def ofInt (z : Int) : Literal :=
  ⟨(if z < 0 then "-" else "") ++ hexLiteral 1 z.natAbs,
    "\t/* " ++ Numeral.decimal z.natAbs ++ " */"⟩

/-- A real, or an integer rounded to one, with six decimal places. -/
def ofReal? : Value → Option Literal
  | .real x => some (bare (Numeral.sixPlaces x))
  | .integer v => some (bare (Numeral.sixPlacesOfInt v.toInt))
  | .unsigned v => some (bare (Numeral.sixPlacesOfInt v.toNat))
  | _ => none

/-- The literal of a value under a kind, unless the value does not fit the kind. -/
def of? (kind : Kind) (value : Value) : Option Literal :=
  match kind with
  | .visibleString =>
    match value with
    | .visibleString s => some (quoted s)
    | _ => none
  | .domain => value.bytes?.map ofBytes
  | .real _ => ofReal? value
  | _ => value.toInt?.map ofInt

/-- The literal of the value at a place of the dictionary.  The place is only used to say where a
value does not fit. -/
def format (kind : Kind) (value : Value) (index : Index) (sub : SubIndex) :
    Except GenerationError Literal :=
  match of? kind value with
  | some literal => .ok literal
  | none => .error (.invalidValue index sub kind.tag)

end Literal
end CanopenTables
