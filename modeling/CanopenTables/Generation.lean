import CanopenTables.Document
import CanopenTables.Fallback

/-!
# Generating the documents of a dictionary

The stages run in a fixed order: value ranges, entries, fallbacks, navigation tables, documents.
The stages before the documents share one resolver; it starts empty in each run.
-/

namespace CanopenTables

/-- What the stages hand to the documents. -/
structure Emission where
  /-- The variables at file scope, by index and subindex. -/
  definitions : List MappedDefinition
  /-- Their declarations, in the same order. -/
  declarations : List MappedDeclaration
  /-- The number of variables at file scope, as the entries count them. -/
  mappedCount : Nat
  pointers : List PointerDefinition
  /-- One block per entry. -/
  blocks : AscendingMap Index Block
  /-- The name of the callback array of each entry that has one. -/
  callbacks : AscendingMap Index (Option String)

namespace Emission

def empty : Emission := ⟨[], [], 0, [], .empty, .empty⟩

def add (aliases : PointerAliases) (em : Emission) (c : EntryCode) : Emission :=
  { definitions := em.definitions ++ c.shape.definitions
    declarations := em.declarations ++ c.shape.declarations
    mappedCount := em.mappedCount + c.shape.mappedCount
    pointers := em.pointers ++ c.pointers aliases
    blocks := em.blocks.insert c.index c.block
    callbacks := em.callbacks.insert c.index (c.callbacks.map fun a => Symbol.callbacks a.name) }

def ofCodes (aliases : PointerAliases) (codes : List EntryCode) : Emission :=
  codes.foldl (add aliases) empty

def withFallbacks (em : Emission) (blocks : List Block) : Emission :=
  { em with blocks := blocks.foldl (fun m b => m.insert b.index b) em.blocks }

end Emission

namespace Dictionary

/-- The indexes that the navigation tables list, ascending. -/
def listedIndexes (d : Dictionary) : List Index := d.indexesIn Profile.commAreaStart 0xFFFF

def reportStage (d : Dictionary) (event : StageEvent) : Reported Unit :=
  Reported.report (.staged d.node.name event)

/-- Whether an alias has no subindex to point at. -/
def ignoresAlias (d : Dictionary) (address : Address) : Bool :=
  address.index < Profile.commAreaStart || (d.value? address.index address.sub).isNone

/-- The reports on aliases without a subindex to point at. -/
def aliasNotices (d : Dictionary) (aliases : PointerAliases) : List Notice :=
  (aliases.toList.filter fun b => d.ignoresAlias b.1).map fun b =>
    .staged d.node.name (.aliasIgnored b.1 b.2)

/-- The number of heartbeats to watch, which the entry for them declares; a byte has to hold it. -/
def heartbeatTimers (d : Dictionary) : Except GenerationError Nat :=
  if d.contains Profile.consumerHeartbeat then
    match (d.value? Profile.consumerHeartbeat 0).bind Value.toUInt64? with
    | some n =>
      if n.toNat < 256 then .ok n.toNat
      else .error (.invalidValue Profile.consumerHeartbeat 0 "subindex count")
    | none => .error (.invalidValue Profile.consumerHeartbeat 0 "subindex count")
  else .ok 0

/-- The value ranges and the code of all entries, worked out with one resolver. -/
def rangesAndCodes (d : Dictionary) : Lowering (List RangeType × List EntryCode) := do
  Lowering.report (.staged d.node.name .buildingRanges)
  let ranges ← d.rangeTypes
  Lowering.report (.staged d.node.name .buildingEntries)
  let codes ← d.entryCodes
  pure (ranges, codes)

/-- The documents that the ranges, the code of the entries, the fallbacks and the number of
heartbeats make. -/
def documentsOf (d : Dictionary) (headerName : String) (aliases : PointerAliases)
    (config : Config) (ranges : List RangeType) (codes : List EntryCode) (fallbacks : List Block)
    (timers : Nat) : SourceDocument × HeaderDocument :=
  let emission := (Emission.ofCodes aliases codes).withFallbacks fallbacks
  ({ banner := config.banner
     headerName := headerName
     node := d.node
     definitions := emission.definitions
     ranges := ⟨d.node.name, ranges⟩
     heartbeatTimers := timers
     blocks := emission.blocks
     pointers := emission.pointers
     navigation := Navigation.of d.node.name d.listedIndexes fun i =>
       (emission.callbacks.get? i).join },
   { banner := config.banner
     headerName := headerName
     stackHeader := config.stackHeader
     node := d.node.name
     declarations := emission.declarations })

/-- The documents of a dictionary.  `headerName` is the file name of the header. -/
def documents (d : Dictionary) (headerName : String) (aliases : PointerAliases)
    (config : Config) : Reported (SourceDocument × HeaderDocument) := do
  d.reportStage (.started headerName d.size)
  Reported.reportAll (d.aliasNotices aliases)
  let (ranges, codes) ← StateT.run' d.rangesAndCodes (Resolver.new d.node.defaultStringSize)
  d.reportStage .buildingFallbacks
  let fallbacks ← d.fallbackBlocks
  d.reportStage .buildingNavigation
  let timers ← d.heartbeatTimers
  let documents := d.documentsOf headerName aliases config ranges codes fallbacks timers
  let mappedCount := (Emission.ofCodes aliases codes).mappedCount
  d.reportStage (.finished documents.1.navigation.positions.size mappedCount)
  pure documents

/-- The texts of the documents of a dictionary. -/
def generate (d : Dictionary) (headerName : String) (aliases : PointerAliases)
    (config : Config) : Reported DocumentPair := do
  let (source, header) ← d.documents headerName aliases config
  pure ⟨source.text, header.text⟩

end Dictionary
end CanopenTables
