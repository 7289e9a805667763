import CanopenTables.AscendingMap

/-!
# The communication profile

Where the areas of an object dictionary lie, the codes and names of the standard data types, and
the names of the well-known entries of the communication area.
-/

namespace CanopenTables

/-- The index of an entry. -/
abbrev Index := UInt16

/-- The position of a value within an entry. -/
abbrev SubIndex := UInt8

/-- The place of one value in a dictionary. -/
structure Address where
  index : Index
  sub : SubIndex
  deriving DecidableEq, Repr

/-- Addresses are ordered by index and then by subindex. -/
instance : Ranked Address where
  rank a := a.index.toNat * 256 + a.sub.toNat
  rank_injective := by
    rintro ⟨i, s⟩ ⟨j, t⟩ h
    have hs := s.toNat_lt
    have ht := t.toNat_lt
    simp only at h
    obtain rfl : i = j := UInt16.toNat_inj.mp (by omega)
    obtain rfl : s = t := UInt8.toNat_inj.mp (by omega)
    rfl

namespace Profile

/-! ### Areas -/

/-- The last index of the area of data types. -/
def typeAreaEnd : Index := 0x0260

/-- The first index of the communication area, and of everything that is generated. -/
def commAreaStart : Index := 0x1000

/-- The last index of the general part of the communication area. -/
def commAreaEnd : Index := 0x11FF

/-- The first index of the manufacturer and device profile areas. -/
def userAreaStart : Index := 0x2000

/-- The last index of the manufacturer and device profile areas. -/
def userAreaEnd : Index := 0xBFFF

/-- Whether an index lies in the area of data types. -/
def inTypeArea (i : Index) : Bool := i ≤ typeAreaEnd

/-- Whether an entry becomes variables at file scope, which the application uses by name. -/
def isMapped (i : Index) : Bool := userAreaStart ≤ i && i ≤ userAreaEnd

/-! ### Well-known entries -/

/-- The list of past errors. -/
def predefinedErrorField : Index := 0x1003

/-- The identifier of synchronisation messages. -/
def syncCobId : Index := 0x1005

/-- The period of synchronisation messages. -/
def commCyclePeriod : Index := 0x1006

def guardTime : Index := 0x100C

def lifeTimeFactor : Index := 0x100D

/-- The identifier of emergency messages. -/
def emergencyCobId : Index := 0x1014

/-- The nodes whose heartbeat is watched. -/
def consumerHeartbeat : Index := 0x1016

/-- The period of the own heartbeat. -/
def producerHeartbeat : Index := 0x1017

/-- The code of the type of eight unsigned bits. -/
def unsigned8 : UInt16 := 0x0005

/-- The name of a standard data type.  The codes 0x000E and 0x0017 are reserved. -/
def typeName? (code : UInt16) : Option String :=
  match code.toNat with
  | 0x0001 => some "BOOLEAN"
  | 0x0002 => some "INTEGER8"
  | 0x0003 => some "INTEGER16"
  | 0x0004 => some "INTEGER32"
  | 0x0005 => some "UNSIGNED8"
  | 0x0006 => some "UNSIGNED16"
  | 0x0007 => some "UNSIGNED32"
  | 0x0008 => some "REAL32"
  | 0x0009 => some "VISIBLE_STRING"
  | 0x000A => some "OCTET_STRING"
  | 0x000B => some "UNICODE_STRING"
  | 0x000C => some "TIME_OF_DAY"
  | 0x000D => some "TIME_DIFFERENCE"
  | 0x000F => some "DOMAIN"
  | 0x0010 => some "INTEGER24"
  | 0x0011 => some "REAL64"
  | 0x0012 => some "INTEGER40"
  | 0x0013 => some "INTEGER48"
  | 0x0014 => some "INTEGER56"
  | 0x0015 => some "INTEGER64"
  | 0x0016 => some "UNSIGNED24"
  | 0x0018 => some "UNSIGNED40"
  | 0x0019 => some "UNSIGNED48"
  | 0x001A => some "UNSIGNED56"
  | 0x001B => some "UNSIGNED64"
  | _ => none

/-- The names of the entries that stand alone. -/
def singleEntryName? (i : Index) : Option String :=
  match i.toNat with
  | 0x1000 => some "Device Type"
  | 0x1001 => some "Error Register"
  | 0x1002 => some "Manufacturer Status Register"
  | 0x1003 => some "Pre-defined Error Field"
  | 0x1005 => some "SYNC COB ID"
  | 0x1006 => some "Communication / Cycle Period"
  | 0x1007 => some "Synchronous Window Length"
  | 0x1008 => some "Manufacturer Device Name"
  | 0x1009 => some "Manufacturer Hardware Version"
  | 0x100A => some "Manufacturer Software Version"
  | 0x100C => some "Guard Time"
  | 0x100D => some "Life Time Factor"
  | 0x1010 => some "Store parameters"
  | 0x1011 => some "Restore Default Parameters"
  | 0x1012 => some "TIME COB ID"
  | 0x1013 => some "High Resolution Timestamp"
  | 0x1014 => some "Emergency COB ID"
  | 0x1015 => some "Inhibit Time Emergency"
  | 0x1016 => some "Consumer Heartbeat Time"
  | 0x1017 => some "Producer Heartbeat Time"
  | 0x1018 => some "Identity"
  | _ => none

/-- The name of a well-known entry.  The entries of a parameter range share the name of its first
entry. -/
def entryName? (i : Index) : Option String :=
  if 0x1200 ≤ i ∧ i ≤ 0x127F then some "Server SDO Parameter"
  else if 0x1280 ≤ i ∧ i ≤ 0x12FF then some "Client SDO Parameter"
  else if 0x1400 ≤ i ∧ i ≤ 0x15FF then some "Receive PDO Parameter"
  else if 0x1600 ≤ i ∧ i ≤ 0x17FF then some "Receive PDO Mapping"
  else if 0x1800 ≤ i ∧ i ≤ 0x19FF then some "Transmit PDO Parameter"
  else if 0x1A00 ≤ i ∧ i ≤ 0x1BFF then some "Transmit PDO Mapping"
  else singleEntryName? i

end Profile
end CanopenTables
