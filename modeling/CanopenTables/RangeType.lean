import CanopenTables.DataType.RangeName
import CanopenTables.DataType.Resolver
import CanopenTables.Dictionary
import CanopenTables.EntryCode
import CanopenTables.Numeral.Shortest

/-!
# Value ranges

An entry of the type area whose name declares a value range becomes a type of its own.  It keeps the
storage of its base type, gets a number and a constant, and the generated check routine has a case
for it that compares a value with the two bounds.

A value of an unsigned type cannot lie below zero, so a lower bound of zero or less is not checked
for such a type.
-/

namespace CanopenTables

/-- A bound of a range. -/
inductive Bound where
  | integer (z : Int)
  | real (x : Binary64)
  deriving DecidableEq, Repr

namespace Bound

/-- The bound that a value stands for; strings and domains are none. -/
def ofValue? : Value → Option Bound
  | .real x => some (real x)
  | v => v.toInt?.map integer

def text : Bound → String
  | integer z => Numeral.signedDecimal z
  | real x => Numeral.shortest x

def isNonPositive : Bound → Bool
  | integer z => z ≤ 0
  | real x => x.isNonPositive

end Bound

/-- A value range of the dictionary. -/
structure RangeType where
  /-- The number, from 1 on in index order. -/
  number : Nat
  /-- The index of the entry that declares the range, which is the value of its constant. -/
  index : Index
  /-- The base type. -/
  base : ResolvedType
  minimum : Bound
  maximum : Bound
  deriving DecidableEq, Repr

/-- The comparisons of a value with the bounds, both after a cast to the storage type. -/
structure RangeCheck where
  storage : Storage
  /-- The lower bound, unless it is not checked. -/
  lower : Option Bound
  upper : Bound
  deriving DecidableEq, Repr

namespace RangeCheck

/-- A comparison with one bound, which leaves the routine when it holds. -/
def comparison (storage : Storage) (operator : String) (bound : Bound) (verdict : String) :
    String :=
  "      if (*(" ++ storage.text ++ "*)value " ++ operator ++ " (" ++ storage.text ++ ")" ++
    bound.text ++ ") return " ++ verdict ++ ";\n"

def text (c : RangeCheck) : String :=
  (match c.lower with
    | some bound => comparison c.storage "<" bound "OD_VALUE_TOO_LOW"
    | none => "      /* Negative or null low limit ignored because of unsigned type */;\n") ++
    comparison c.storage ">" c.upper "OD_VALUE_TOO_HIGH"

end RangeCheck

/-- A constant by which a subindex table names a range. -/
structure RangeConstant where
  id : RangeId
  value : Nat
  /-- What the comment behind the value says. -/
  comment : String
  deriving DecidableEq, Repr

namespace RangeConstant

def errorCount : RangeConstant :=
  ⟨.errorCount, 0x9F, "Type for index 0x1003 subindex 0x00 (only set of value 0 is possible)"⟩

def text (c : RangeConstant) : String :=
  "\n#define " ++ c.id.text ++ " " ++ hexLiteral 2 c.value ++ " /* " ++ c.comment ++ " */"

end RangeConstant

/-- A case of the check routine. -/
inductive RangeCase where
  /-- Only zero is admitted. -/
  | zero (id : RangeId) (storage : Storage)
  /-- The value is compared with bounds. -/
  | bounds (id : RangeId) (check : RangeCheck)
  deriving DecidableEq, Repr

namespace RangeCase

def errorCount : RangeCase := .zero .errorCount (.unsigned 8)

/-- The range that the case belongs to. -/
def id : RangeCase → RangeId
  | zero id _ => id
  | bounds id _ => id

/-- The type through which the case reads the value. -/
def storage : RangeCase → Storage
  | zero _ storage => storage
  | bounds _ check => check.storage

def text : RangeCase → String
  | zero id storage =>
    "    case " ++ id.text ++ ":\n      if (*(" ++ storage.text ++ "*)value != (" ++
      storage.text ++ ")0) return OD_VALUE_RANGE_EXCEEDED;\n      break;\n"
  | bounds id check => "    case " ++ id.text ++ ":\n" ++ check.text ++ "    break;\n"

end RangeCase

namespace RangeType

def id (t : RangeType) : RangeId := .numbered t.number

/-- The type that the name of the entry resolves to. -/
def resolved (t : RangeType) : ResolvedType := { t.base with kind := .valueRange t.id }

def check (t : RangeType) : RangeCheck :=
  { storage := t.base.storage
    lower := if t.base.unsigned && t.minimum.isNonPositive then none else some t.minimum
    upper := t.maximum }

/-- The constant of the type, which has the value of its index. -/
def constant (t : RangeType) : RangeConstant :=
  { id := t.id
    value := t.index.toNat
    comment := "Type " ++ t.base.storage.text ++ ", " ++ t.minimum.text ++ " < value < " ++
      t.maximum.text }

/-- The case of the check routine. -/
def checkCase (t : RangeType) : RangeCase := .bounds t.id t.check

end RangeType

/-- The section of value ranges: the constants and the check routine. -/
structure RangeSection where
  node : String
  /-- The ranges in index order. -/
  types : List RangeType
  deriving DecidableEq, Repr

namespace RangeSection

/-- The constants.  The built-in range of the error field's count comes first. -/
def constants (s : RangeSection) : List RangeConstant :=
  .errorCount :: s.types.map RangeType.constant

/-- The cases of the check routine, in the order of the constants. -/
def cases (s : RangeSection) : List RangeCase := .errorCount :: s.types.map RangeType.checkCase

def text (s : RangeSection) : String :=
  String.join (s.constants.map RangeConstant.text) ++
    "\nUNS32 " ++ s.node ++ "_valueRangeTest (UNS8 typeValue, void * value)\n\x7b" ++
    "\n  switch (typeValue) \x7b\n" ++
    String.join (s.cases.map RangeCase.text) ++
    "  \x7d\n  return 0;\n\x7d\n"

end RangeSection

namespace Dictionary

/-- The entries of the type area that declare value ranges, ascending. -/
def rangeEntries (d : Dictionary) : List (Index × Entry) :=
  (d.entriesIn 0 Profile.typeAreaEnd).filter fun b => RangeName.matches? b.2.name

/-- A value that a range entry has to hold. -/
def rangeField (i : Index) (e : Entry) (k : SubIndex) : Except GenerationError Value :=
  match e.value? k with
  | some value => .ok value
  | none => .error (.missingEntry i (some k))

/-- The code of the base type, at subindex 1. -/
def rangeBaseCode (i : Index) (e : Entry) : Except GenerationError UInt16 := do
  let value ← rangeField i e 1
  match value.toUInt64? with
  | some code =>
    if code.toNat < UInt16.size then .ok code.toUInt16 else .error (.invalidValue i 1 "type code")
  | none => .error (.invalidValue i 1 "type code")

/-- The bound that a value stands for. -/
def rangeBound (i : Index) (k : SubIndex) (value : Value) : Except GenerationError Bound :=
  match Bound.ofValue? value with
  | some bound => .ok bound
  | none => .error (.invalidValue i k "range bound")

/-- The name of a base type. -/
def rangeBaseName (d : Dictionary) (code : UInt16) : Except GenerationError String :=
  match d.typeName? code with
  | some name => .ok name
  | none => .error (.missingTypeDefinition code)

/-- Resolves and registers one range.  The type has its name before the bounds are looked at, and
both bounds are fetched before either is read. -/
def rangeType (d : Dictionary) (number : Nat) (i : Index) (e : Entry) : Lowering RangeType := do
  let code ← rangeBaseCode i e
  let baseName ← d.rangeBaseName code
  let base ← Lowering.resolveFor baseName []
  Lowering.register e.name { base with kind := .valueRange (.numbered number) }
  let lower ← rangeField i e 2
  let upper ← rangeField i e 3
  let minimum ← rangeBound i 2 lower
  let maximum ← rangeBound i 3 upper
  Lowering.report (.staged d.node.name
    (.rangeRegistered (.numbered number) e.name base.storage minimum.text maximum.text))
  pure ⟨number, i, base, minimum, maximum⟩

/-- All ranges of the dictionary, numbered in index order. -/
def rangeTypes (d : Dictionary) : Lowering (List RangeType) :=
  (d.rangeEntries.zipIdx 1).mapM fun ((i, e), number) => d.rangeType number i e

end Dictionary
end CanopenTables
