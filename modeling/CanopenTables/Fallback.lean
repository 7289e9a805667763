import CanopenTables.EntryCode

/-!
# Fallbacks for entries that the stack needs

The stack links against eight entries of the communication area.  Those that a dictionary lacks get
a block with fixed content.  They are not part of the dictionary, so the navigation tables leave
them out.
-/

namespace CanopenTables.Fallback

open Profile

/-- The entries that get a fallback, in the order in which they are looked at. -/
def indexes : List Index :=
  [predefinedErrorField, syncCobId, commCyclePeriod, emergencyCobId, consumerHeartbeat,
    producerHeartbeat, guardTime, lifeTimeFactor]

/-- A variable of a fallback; its comment stands three blanks behind the value. -/
def word (node : String) (i : Index) (storage : Storage) (value comment : String) : BlockItem :=
  .single ⟨⟨storage, false, Symbol.object node i, .single⟩, ⟨value, "   /* " ++ comment ++ " */"⟩⟩

/-- The parts of the error field: a count of zero, one free place, two callbacks, two rows. -/
def errorFieldItems (node : String) : List BlockItem :=
  let i := predefinedErrorField
  let count := Symbol.highestSubIndex node i
  let field := Symbol.object node i
  [.highest (.unsigned 8) count 0,
    .elements ⟨⟨.unsigned 32, false, field, .asFilled⟩, [Literal.ofInt 0]⟩,
    .callbacks (Symbol.table node i) 2,
    .table (Symbol.table node i)
      [⟨.readWrite, false, errorCountType, .sizeOf (.unsigned 8), count⟩,
        ⟨.readOnly, false, ⟨.unsigned 32, none, .unsigned 32, true⟩, .sizeOf (.unsigned 32),
          Symbol.element field 0⟩]]

/-- The parts of the block of an entry.  No other entry has a fallback. -/
def items (node : Node) (i : Index) : Except GenerationError (List BlockItem) :=
  let name := node.name
  if i = predefinedErrorField then .ok (errorFieldItems name)
  else if i = syncCobId ∨ i = commCyclePeriod then .ok [word name i (.unsigned 32) "0x0" "0"]
  else if i = emergencyCobId then
    .ok [word name i (.unsigned 32) ("0x80 + " ++ hexLiteral 2 node.id.toNat) "128 + NodeID"]
  else if i = consumerHeartbeat then
    .ok [.single ⟨⟨.unsigned 8, false, Symbol.highestSubIndex name i, .single⟩, Literal.bare "0"⟩,
      .zeroElement (.unsigned 32) (Symbol.object name i)]
  else if i = producerHeartbeat ∨ i = guardTime then .ok [word name i (.unsigned 16) "0x0" "0"]
  else if i = lifeTimeFactor then .ok [word name i (.unsigned 8) "0x0" "0"]
  else .error (.missingEntry i none)

/-- Whether the title line of an entry ends in a blank. -/
def titleEndsInBlank (i : Index) : Bool :=
  i = producerHeartbeat || i = guardTime || i = lifeTimeFactor

def block (node : Node) (i : Index) (name : String) : Except GenerationError Block := do
  let items ← items node i
  pure ⟨i, .fallback name (titleEndsInBlank i), items⟩

end CanopenTables.Fallback

namespace CanopenTables.Dictionary

/-- Whether an index of the communication area is taken. -/
def definesInCommArea (d : Dictionary) (i : Index) : Bool :=
  Profile.commAreaStart ≤ i && i ≤ Profile.commAreaEnd && d.contains i

/-- The entries that need a fallback. -/
def missingIndexes (d : Dictionary) : List Index :=
  Fallback.indexes.filter fun i => !d.definesInCommArea i

/-- The fallback of an entry under the name of the well-known entry, which is reported. -/
def fallbackBlock (d : Dictionary) (i : Index) : Reported Block := do
  let name := (d.entryName? i).getD ""
  let block ← Fallback.block d.node i name
  Reported.report (.staged d.node.name (.fallbackAdded i name))
  pure block

/-- The fallbacks of all entries that need one. -/
def fallbackBlocks (d : Dictionary) : Reported (List Block) :=
  d.missingIndexes.mapM d.fallbackBlock

end CanopenTables.Dictionary
