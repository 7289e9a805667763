import CanopenTables.Profile
import CanopenTables.Value

/-!
# Entries

An entry has a name, the values it holds, a description of each subindex, and structure flags.
Entries with identical subindexes describe only subindex 0 and 1; the last description then serves
every further subindex.
-/

namespace CanopenTables

inductive Object where
  /-- One value at subindex 0. -/
  | single (value : Value)
  /-- One value per subindex; the first one counts the others. -/
  | sequence (values : List Value)
  deriving DecidableEq, Repr

namespace Object

def values : Object → List Value
  | single value => [value]
  | sequence values => values

def size (o : Object) : Nat := o.values.length

def get? (o : Object) (k : SubIndex) : Option Value := o.values[k.toNat]?

end Object

/-- Who may read and write a subindex. -/
inductive Access where
  | readWrite
  | readOnly
  | writeOnly
  deriving DecidableEq, Repr

/-- The token for an access right in a subindex table. -/
def Access.token : Access → String
  | readWrite => "RW"
  | readOnly => "RO"
  | writeOnly => "WO"

/-- A set of structure flags, one bit each. -/
structure StructureFlags where
  bits : UInt8
  deriving DecidableEq, Repr

namespace StructureFlags

/-- The entry has subindexes beyond 0. -/
def multiple : StructureFlags := ⟨2⟩

/-- The subindexes from 1 on share one description. -/
def identical : StructureFlags := ⟨4⟩

def none : StructureFlags := ⟨0⟩

/-- All flags of both sets. -/
def union (a b : StructureFlags) : StructureFlags := ⟨a.bits ||| b.bits⟩

/-- Whether all flags of the second set are in the first. -/
def contains (a b : StructureFlags) : Bool := a.bits &&& b.bits == b.bits

/-- The flags of a single value. -/
def ofVariable : StructureFlags := none

/-- The flags of subindexes that differ. -/
def ofArray : StructureFlags := multiple

/-- The flags of subindexes that are alike. -/
def ofRecord : StructureFlags := multiple.union identical

end StructureFlags

structure SubEntry where
  /-- The declared name. -/
  name : String
  /-- The code of the data type. -/
  typeCode : UInt16
  /-- The access right. -/
  access : Access := .readWrite
  /-- The value has to survive a power cycle. -/
  save : Bool := false
  /-- A change of the value is reported through a callback. -/
  callback : Bool := false
  deriving DecidableEq, Repr

/-- An entry of a dictionary. -/
structure Entry where
  /-- The name. -/
  name : String
  /-- The values. -/
  object : Object
  /-- The structure flags. -/
  flags : StructureFlags
  /-- The descriptions of the subindexes. -/
  subEntries : List SubEntry
  deriving DecidableEq, Repr

/-- The form in which an entry is laid out in C. -/
inductive Shape where
  /-- One variable. -/
  | scalar
  /-- The subindexes from 1 on are the elements of one array. -/
  | record
  /-- Each subindex from 1 on is a variable of its own. -/
  | array
  deriving DecidableEq, Repr

def Shape.text : Shape → String
  | scalar => "Scalar"
  | record => "Record"
  | array => "Array"

namespace Entry

def ofVariable (name : String) (sub : SubEntry) (value : Value) : Entry :=
  ⟨name, .single value, .ofVariable, [sub]⟩

/-- An entry with identical subindexes; the first value counts the others. -/
def ofRecord (name : String) (count element : SubEntry) (values : List Value) : Entry :=
  ⟨name, .sequence values, .ofRecord, [count, element]⟩

/-- An entry whose subindexes have a description each. -/
def ofArray (name : String) (subs : List SubEntry) (values : List Value) : Entry :=
  ⟨name, .sequence values, .ofArray, subs⟩

/-- The type entry of a value range: its base type stands at subindex 1 and its bounds at the
subindexes 2 and 3. -/
def ofRange (name : String) (base : UInt16) (minimum maximum : Int64) : Entry :=
  ofArray name
    [⟨"Number of Entries", Profile.unsigned8, .readOnly, false, false⟩,
      ⟨"Type", Profile.unsigned8, .readOnly, false, false⟩,
      ⟨"Minimum Value", base, .readOnly, false, false⟩,
      ⟨"Maximum Value", base, .readOnly, false, false⟩]
    [.unsigned 3, .unsigned base.toUInt64, .integer minimum, .integer maximum]

/-- Whether the subindexes from 1 on share one description. -/
def hasIdenticalSubs (e : Entry) : Bool := e.flags.contains .identical

/-- Whether the entry is flagged to have subindexes beyond 0. -/
def hasMultipleSubs (e : Entry) : Bool := e.flags.contains .multiple

/-- The description of a subindex.  Identical subindexes past the described ones take the last
description. -/
def sub? (e : Entry) (k : SubIndex) : Option SubEntry :=
  match e.subEntries[k.toNat]? with
  | some sub => some sub
  | none => if 0 < k ∧ e.hasIdenticalSubs then e.subEntries.getLast? else none

def value? (e : Entry) (k : SubIndex) : Option Value := e.object.get? k

/-- Whether some subindex reports changes. -/
def hasCallbacks (e : Entry) : Bool := e.subEntries.any (·.callback)

/-- The form in which the entry is laid out. -/
def shape (e : Entry) : Shape :=
  match e.object with
  | .single _ => .scalar
  | .sequence _ => if e.hasIdenticalSubs then .record else .array

end Entry
end CanopenTables
