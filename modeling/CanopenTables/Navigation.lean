import CanopenTables.Code.Symbol
import CanopenTables.Error

/-!
# Navigation tables

At run time an entry is found by its index: a switch maps the index to a position in a table of all
subindex tables.  A quick index holds, for each category of communication parameters, the first and
the last position of its entries.
-/

namespace CanopenTables

/-- A category of communication parameters. -/
inductive Category where
  | sdoServer
  | sdoClient
  | pdoReceive
  | pdoReceiveMap
  | pdoTransmit
  | pdoTransmitMap
  deriving DecidableEq, Repr

namespace Category

def all : List Category :=
  [sdoServer, sdoClient, pdoReceive, pdoReceiveMap, pdoTransmit, pdoTransmitMap]

/-- The first and the last index of a category. -/
def window : Category → Index × Index
  | sdoServer => (0x1200, 0x127F)
  | sdoClient => (0x1280, 0x12FF)
  | pdoReceive => (0x1400, 0x15FF)
  | pdoReceiveMap => (0x1600, 0x17FF)
  | pdoTransmit => (0x1800, 0x19FF)
  | pdoTransmitMap => (0x1A00, 0x1BFF)

def contains (c : Category) (i : Index) : Bool := c.window.1 ≤ i && i ≤ c.window.2

/-- The word beside a row of the quick index. -/
def label : Category → String
  | sdoServer => "SDO_SVR"
  | sdoClient => "SDO_CLT"
  | pdoReceive => "PDO_RCV"
  | pdoReceiveMap => "PDO_RCV_MAP"
  | pdoTransmit => "PDO_TRS"
  | pdoTransmitMap => "PDO_TRS_MAP"

/-- The category of an index. -/
def of? (i : Index) : Option Category := all.find? (·.contains i)

end Category

/-- A position for each category. -/
structure Positions where
  sdoServer : Nat := 0
  sdoClient : Nat := 0
  pdoReceive : Nat := 0
  pdoReceiveMap : Nat := 0
  pdoTransmit : Nat := 0
  pdoTransmitMap : Nat := 0
  deriving DecidableEq, Repr

namespace Positions

def get (p : Positions) : Category → Nat
  | .sdoServer => p.sdoServer
  | .sdoClient => p.sdoClient
  | .pdoReceive => p.pdoReceive
  | .pdoReceiveMap => p.pdoReceiveMap
  | .pdoTransmit => p.pdoTransmit
  | .pdoTransmitMap => p.pdoTransmitMap

def set (p : Positions) (c : Category) (position : Nat) : Positions :=
  match c with
  | .sdoServer => { p with sdoServer := position }
  | .sdoClient => { p with sdoClient := position }
  | .pdoReceive => { p with pdoReceive := position }
  | .pdoReceiveMap => { p with pdoReceiveMap := position }
  | .pdoTransmit => { p with pdoTransmit := position }
  | .pdoTransmitMap => { p with pdoTransmitMap := position }

@[simp] theorem get_set (p : Positions) (c c' : Category) (position : Nat) :
    (p.set c position).get c' = if c' = c then position else p.get c' := by
  cases c <;> cases c' <;> rfl

end Positions

/-- First and last positions by category. -/
structure QuickIndex where
  first : Positions
  last : Positions
  deriving DecidableEq, Repr

namespace QuickIndex

/-- The quick index before any entry: all positions are zero. -/
def empty : QuickIndex := ⟨{}, {}⟩

/-- Takes note of a position in a category.  It becomes the last one; it becomes the first one when
zero stands there. -/
def record (q : QuickIndex) (c : Category) (position : Nat) : QuickIndex :=
  { first := if q.first.get c = 0 then q.first.set c position else q.first
    last := q.last.set c position }

/-- Takes note of a position in every category that holds the index. -/
def recordIndex (q : QuickIndex) (i : Index) (position : Nat) : QuickIndex :=
  Category.all.foldl (fun q c => if c.contains i then q.record c position else q) q

def tableText (node table : String) (positions : Positions) : String :=
  "\nconst quick_index " ++ node ++ "_" ++ table ++ " = \x7b\n" ++
    String.join (Category.all.map fun c =>
      "  " ++ Numeral.decimal (positions.get c) ++ (if c = .pdoTransmitMap then "" else ",") ++
        " /* " ++ c.label ++ " */\n") ++
    "\x7d;\n"

def text (node : String) (q : QuickIndex) : String :=
  tableText node "firstIndex" q.first ++ tableText node "lastIndex" q.last

end QuickIndex

/-- A row of the table of subindex tables. -/
structure NavigationRow where
  index : Index
  /-- The name of the subindex table. -/
  table : String
  deriving DecidableEq, Repr

def NavigationRow.text (r : NavigationRow) : String :=
  "  \x7b (subindex*)" ++ r.table ++ ",sizeof(" ++ r.table ++ ")/sizeof(" ++ r.table ++ "[0]), " ++
    indexText r.index ++ "\x7d,\n"

/-- A case of the switch. -/
structure DispatchCase where
  index : Index
  /-- The position of the entry's row. -/
  position : Nat
  /-- The name of the callback array, if the entry has one. -/
  callbacks : Option String
  deriving DecidableEq, Repr

def DispatchCase.text (c : DispatchCase) : String :=
  "\t\tcase " ++ indexText c.index ++ ": i = " ++ Numeral.decimal c.position ++ ";" ++
    (match c.callbacks with
      | some name => "*callbacks = " ++ name ++ "; "
      | none => "") ++
    "break;\n"

/-- The navigation tables of a dictionary. -/
structure Navigation where
  rows : List NavigationRow
  cases : List DispatchCase
  quickIndex : QuickIndex
  /-- The number of transmit parameters, at least one. -/
  transmitCount : Nat
  /-- The position of every listed index. -/
  positions : AscendingMap Index Nat

/-- The tables for the listed indexes, whose callback arrays are looked up by index. -/
def Navigation.of (node : String) (indexes : List Index) (callbacks : Index → Option String) :
    Navigation :=
  { rows := indexes.map fun i => ⟨i, Symbol.table node i⟩
    cases := indexes.zipIdx.map fun (i, position) => ⟨i, position, callbacks i⟩
    quickIndex := indexes.zipIdx.foldl (fun q (i, position) => q.recordIndex i position) .empty
    transmitCount := max 1 (indexes.filter Category.pdoTransmit.contains).length
    positions := indexes.zipIdx.foldl (fun m (i, position) => m.insert i position) .empty }

end CanopenTables
