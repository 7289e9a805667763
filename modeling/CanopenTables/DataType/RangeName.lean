import CanopenTables.DataType.Family

/-!
# Names of value ranges

A value range is named by a word, digits, and two bounds in brackets: `UNSIGNED8[0-100]`.  Word and
digits may be empty, and each bound may be negative, so the hyphen between the bounds can be
followed by a sign: `INTEGER16[-10--2]`.
-/

namespace CanopenTables.RangeName

/-- What follows the decimal digits, of which there has to be one at least. -/
def afterDigits? (cs : List Char) : Option (List Char) :=
  if cs.head?.any Char.isDigit then some (cs.dropWhile Char.isDigit) else none

/-- What follows an optionally negative decimal number. -/
def afterBound? : List Char → Option (List Char)
  | '-' :: rest => afterDigits? rest
  | cs => afterDigits? cs

/-- Whether a text is two bounds with a hyphen between them and a closing bracket at the end. -/
def closesBounds (cs : List Char) : Bool :=
  match afterBound? cs with
  | some ('-' :: rest) => afterBound? rest == some [']']
  | _ => false

/-- Whether a name declares a value range. -/
def matches? (name : String) : Bool :=
  match (name.toList.dropWhile isTypeLetter).dropWhile Char.isDigit with
  | '[' :: rest => closesBounds rest
  | _ => false

end CanopenTables.RangeName
