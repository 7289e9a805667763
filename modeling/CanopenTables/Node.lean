import CanopenTables.Numeral.Positional

/-!
# The node of a dictionary

Node identifiers, the network role of a node, and what a dictionary records about its node.
-/

namespace CanopenTables

/-- The identifier of a node on the bus. -/
abbrev NodeId := UInt8

/-- The highest identifier that a node may carry. -/
def NodeId.highest : NodeId := 0x7F

/-- Why a number is no node identifier. -/
inductive NodeIdError where
  /-- The number lies above the highest identifier. -/
  | outOfRange (value : UInt8)
  deriving DecidableEq, Repr

def NodeIdError.message : NodeIdError → String
  | outOfRange value =>
    "Invalid NodeId value: " ++ Numeral.decimal value.toNat ++ ". Valid range is 0-127."

/-- Admits the identifiers of configured nodes and 0, which stands for a node that has none yet. -/
def NodeId.check (value : UInt8) : Except NodeIdError NodeId :=
  if value ≤ NodeId.highest then .ok value else .error (.outOfRange value)

/-- The network role of a node. -/
inductive NodeRole where
  | master
  | slave
  deriving DecidableEq, Repr

def NodeRole.text : NodeRole → String
  | master => "master"
  | slave => "slave"

def NodeRole.isSlave (role : NodeRole) : Bool := role == slave

/-- What a dictionary records about its node. -/
structure Node where
  /-- The name, which begins every generated symbol. -/
  name : String := ""
  /-- The identifier on the bus. -/
  id : NodeId := 0
  /-- The network role. -/
  role : NodeRole := .slave
  /-- Free text. -/
  description : String := ""
  /-- The least storage size of a string. -/
  defaultStringSize : Nat := 10
  deriving DecidableEq, Repr

end CanopenTables
