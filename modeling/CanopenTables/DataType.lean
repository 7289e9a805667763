import CanopenTables.Numeral.Positional

/-!
# Resolved data types

A data type of a dictionary is lowered to a C storage type, a kind that the tables of the stack
know, and, for strings and domains, a number of bytes.
-/

namespace CanopenTables

/-- A C storage type of a given width in bits. -/
inductive Storage where
  | unsigned (width : Nat)
  | integer (width : Nat)
  | real (width : Nat)
  deriving DecidableEq, Repr

def Storage.text : Storage → String
  | unsigned width => "UNS" ++ Numeral.decimal width
  | integer width => "INTEGER" ++ Numeral.decimal width
  | real width => "REAL" ++ Numeral.decimal width

/-- The identifier of a value-range type. -/
inductive RangeId where
  /-- The built-in range of the error field's count, which admits only zero. -/
  | errorCount
  /-- A range of the dictionary, numbered from 1 in index order. -/
  | numbered (n : Nat)
  deriving DecidableEq, Repr

def RangeId.text : RangeId → String
  | errorCount => "valueRange_EMC"
  | numbered n => "valueRange_" ++ Numeral.decimal n

/-- The kinds of data that the tables of the stack know. -/
inductive Kind where
  | unsigned (width : Nat)
  | integer (width : Nat)
  | real (width : Nat)
  | visibleString
  | domain
  | boolean
  | valueRange (id : RangeId)
  deriving DecidableEq, Repr

namespace Kind

/-- The tag of a kind in a subindex table. -/
def tag : Kind → String
  | unsigned width => "uint" ++ Numeral.decimal width
  | integer width => "int" ++ Numeral.decimal width
  | real width => "real" ++ Numeral.decimal width
  | visibleString => "visible_string"
  | domain => "domain"
  | boolean => "boolean"
  | valueRange id => id.text

/-- Kinds whose storage is an array of bytes, sized for the values at hand. -/
def isByteSequence : Kind → Bool
  | visibleString => true
  | domain => true
  | _ => false

end Kind

/-- A data type as it is laid out in C. -/
structure ResolvedType where
  /-- The storage type, of one element for strings and domains. -/
  storage : Storage
  /-- The number of elements, for strings and domains. -/
  size : Option Nat
  /-- The kind that the tables name. -/
  kind : Kind
  /-- Whether the type holds unsigned integers. -/
  unsigned : Bool
  deriving DecidableEq, Repr

/-- The array suffix of a number of elements; a single element has none. -/
def arraySuffix : Option Nat → String
  | some n => "[" ++ Numeral.decimal n ++ "]"
  | none => ""

end CanopenTables
