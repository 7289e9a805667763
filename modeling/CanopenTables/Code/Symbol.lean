import CanopenTables.Profile
import CanopenTables.Numeral.Positional

/-!
# Symbols of the generated code

The names of what a node's dictionary becomes in C.  All of them begin with the name of the node and
hold the index of the entry in four hexadecimal digits.
-/

namespace CanopenTables.Symbol

/-- An index in four hexadecimal digits. -/
def digits (i : Index) : String := Numeral.upperHex 4 i.toNat

def object (node : String) (i : Index) : String := node ++ "_obj" ++ digits i

/-- The variable of a named subindex. -/
def member (node : String) (i : Index) (name : String) : String := object node i ++ "_" ++ name

/-- The variable that holds the highest subindex of an entry. -/
def highestSubIndex (node : String) (i : Index) : String :=
  node ++ "_highestSubIndex_obj" ++ digits i

def table (node : String) (i : Index) : String := node ++ "_Index" ++ digits i

/-- The callback array that belongs to a name. -/
def callbacks (name : String) : String := name ++ "_callbacks"

def element (array : String) (position : Nat) : String :=
  array ++ "[" ++ Numeral.decimal position ++ "]"

end CanopenTables.Symbol
