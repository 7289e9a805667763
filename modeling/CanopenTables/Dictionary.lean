import CanopenTables.Entry
import CanopenTables.Node
import CanopenTables.Reported

/-!
# Object dictionaries

A dictionary holds the entries of one node by index.  All listings are in ascending index order, and
the code of a standard data type keeps its meaning whatever the dictionary holds.
-/

namespace CanopenTables

/-- The entries of a node. -/
structure Dictionary where
  /-- The node. -/
  node : Node := {}
  /-- The entries by index. -/
  entries : AscendingMap Index Entry := .empty

namespace Dictionary

/-- Puts an entry at an index, replacing what stands there. -/
def insert (d : Dictionary) (i : Index) (e : Entry) : Dictionary :=
  { d with entries := d.entries.insert i e }

/-- Puts an entry at an index and reports it. -/
def insertReported (d : Dictionary) (i : Index) (e : Entry) : Reported Dictionary := do
  Reported.report (.inserted i e.name e.object.size)
  pure (d.insert i e)

/-- Puts the entries of a list at their indexes, one after the other. -/
def insertAllReported (d : Dictionary) : List (Index × Entry) → Reported Dictionary
  | [] => pure d
  | (i, e) :: rest => do (← d.insertReported i e).insertAllReported rest

def indexes (d : Dictionary) : List Index := d.entries.keys

/-- The indexes from `first` to `last`, ascending. -/
def indexesIn (d : Dictionary) (first last : Index) : List Index :=
  d.indexes.filter fun i => first ≤ i && i ≤ last

/-- The indexes of an interval.  An interval that ends before it begins is refused, unless there are
no entries to search. -/
def indexesIn? (d : Dictionary) (first last : Index) : Option (List Index) :=
  if first ≤ last ∨ d.indexes = [] then some (d.indexesIn first last) else none

/-- The entries at the indexes from `first` to `last`, ascending. -/
def entriesIn (d : Dictionary) (first last : Index) : List (Index × Entry) :=
  d.entries.toList.filter fun b => first ≤ b.1 && b.1 ≤ last

def contains (d : Dictionary) (i : Index) : Bool := d.entries.contains i

/-- The entry at an index. -/
def get? (d : Dictionary) (i : Index) : Option Entry := d.entries.get? i

/-- The name of an entry; an index that is free has the name of the well-known entry there. -/
def entryName? (d : Dictionary) (i : Index) : Option String :=
  match d.get? i with
  | some e => some e.name
  | none => Profile.entryName? i

def sub? (d : Dictionary) (i : Index) (k : SubIndex) : Option SubEntry :=
  (d.get? i).bind (·.sub? k)

def value? (d : Dictionary) (i : Index) (k : SubIndex) : Option Value :=
  (d.get? i).bind (·.value? k)

/-- Whether some subindex of an entry reports changes. -/
def hasCallbacks (d : Dictionary) (i : Index) : Bool := (d.get? i).any (·.hasCallbacks)

/-- The name of the data type with a code: a standard type, or else the entry at that index of the
type area. -/
def typeName? (d : Dictionary) (code : UInt16) : Option String :=
  match Profile.typeName? code with
  | some name => some name
  | none => if Profile.inTypeArea code then (d.get? code).map (·.name) else none

def size (d : Dictionary) : Nat := d.entries.size

/-- A line about the dictionary. -/
def summary (d : Dictionary) : String :=
  d.node.name ++ " (node " ++ hexLiteral 2 d.node.id.toNat ++ ", " ++ d.node.role.text ++ ", " ++
    Numeral.decimal d.size ++ " entries)"

end Dictionary
end CanopenTables
