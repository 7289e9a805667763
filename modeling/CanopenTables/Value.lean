import CanopenTables.Numeral.Binary64

/-!
# Values of dictionary entries

What a subindex can hold, and the views that the generator takes of it: as a signed or an unsigned
64-bit integer, and as a string of bytes.
-/

namespace CanopenTables

/-- A value stored under a subindex. -/
inductive Value where
  /-- A truth value. -/
  | boolean (b : Bool)
  /-- A signed integer. -/
  | integer (v : Int64)
  /-- An unsigned integer. -/
  | unsigned (v : UInt64)
  /-- A real number. -/
  | real (x : Binary64)
  /-- A text, stored as UTF-8. -/
  | visibleString (s : String)
  /-- Raw bytes. -/
  | domain (bytes : List UInt8)
  deriving DecidableEq, Repr

namespace Value

/-- The number that an integral value denotes; a truth value counts as 0 or 1. -/
def toInt? : Value → Option Int
  | boolean b => some b.toNat
  | integer v => some v.toInt
  | unsigned v => some v.toNat
  | _ => none

/-- The value as a signed integer of 64 bits, if it is integral and fits. -/
def toInt64? (v : Value) : Option Int64 :=
  v.toInt?.bind fun z => if z ≤ Int64.maxValue.toInt then some (Int64.ofInt z) else none

/-- The value as an unsigned integer of 64 bits, if it is integral and not negative. -/
def toUInt64? (v : Value) : Option UInt64 :=
  v.toInt?.bind fun z => if 0 ≤ z then some (UInt64.ofNat z.toNat) else none

/-- The bytes of a text or domain value. -/
def bytes? : Value → Option (List UInt8)
  | visibleString s => some (s.toList.flatMap String.utf8EncodeChar)
  | domain bytes => some bytes
  | _ => none

/-- The number of bytes of a text or domain value. -/
def byteLength? (v : Value) : Option Nat := v.bytes?.map List.length

end Value
end CanopenTables
