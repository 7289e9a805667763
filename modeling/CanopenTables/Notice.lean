import CanopenTables.DataType
import CanopenTables.Entry
import CanopenTables.Error

/-!
# Notices

What a run reports while it works.  A notice says what happened; its severity, the stage it belongs
to and its wording follow from that.
-/

namespace CanopenTables

/-- How much a notice matters, the gravest first. -/
inductive Severity where
  | error
  | warning
  | info
  | debug
  | trace
  deriving DecidableEq, Repr

namespace Severity

def rank : Severity → Nat
  | error => 0
  | warning => 1
  | info => 2
  | debug => 3
  | trace => 4

def text : Severity → String
  | error => "ERROR"
  | warning => "WARN"
  | info => "INFO"
  | debug => "DEBUG"
  | trace => "TRACE"

end Severity

/-- The stages of a generation that report on their own. -/
inductive Stage where
  | compose
  | aliases
  | valueRanges
  | entries
  | defaults
  deriving DecidableEq, Repr

def Stage.text : Stage → String
  | compose => "compose"
  | aliases => "aliases"
  | valueRanges => "value-ranges"
  | entries => "entries"
  | defaults => "defaults"

/-- What a stage of a generation reports. -/
inductive StageEvent where
  /-- A generation begins. -/
  | started (document : String) (entries : Nat)
  /-- An alias has no subindex to point at. -/
  | aliasIgnored (address : Address) (name : String)
  /-- The value ranges come next. -/
  | buildingRanges
  /-- A value range got its type. -/
  | rangeRegistered (id : RangeId) (name : String) (storage : Storage) (minimum maximum : String)
  /-- The entries come next. -/
  | buildingEntries
  /-- An entry is about to be laid out. -/
  | entryEmitted (index : Index) (name : String) (shape : Shape)
  /-- The fallbacks come next. -/
  | buildingFallbacks
  /-- An entry that the dictionary lacks got a fallback. -/
  | fallbackAdded (index : Index) (name : String)
  /-- The navigation tables come next. -/
  | buildingNavigation
  /-- A generation is complete. -/
  | finished (indexes mapped : Nat)
  deriving DecidableEq, Repr

namespace StageEvent

def stage : StageEvent → Stage
  | aliasIgnored .. => .aliases
  | rangeRegistered .. => .valueRanges
  | entryEmitted .. => .entries
  | fallbackAdded .. => .defaults
  | _ => .compose

def severity : StageEvent → Severity
  | started .. => .info
  | finished .. => .info
  | aliasIgnored .. => .warning
  | entryEmitted .. => .trace
  | _ => .debug

def message : StageEvent → String
  | started document entries =>
    "Generating object dictionary '" ++ document ++ "' (" ++ Numeral.decimal entries ++ " entries)"
  | aliasIgnored address name =>
    "Ignoring pointer alias '" ++ name ++ "': no subindex " ++ subIndexText address.sub ++
      " at index " ++ indexText address.index
  | buildingRanges => "Building value range types"
  | rangeRegistered id name storage minimum maximum =>
    "Registered " ++ id.text ++ " for '" ++ name ++ "' (" ++ storage.text ++ " " ++ minimum ++
      ".." ++ maximum ++ ")"
  | buildingEntries => "Building entries"
  | entryEmitted index name shape =>
    "Index " ++ indexText index ++ " '" ++ name ++ "' emitted as " ++ shape.text ++
      (if Profile.isMapped index then " (mapped)" else "")
  | buildingFallbacks => "Building fallback defaults"
  | fallbackAdded index name =>
    "Synthesised default for " ++ indexText index ++ " '" ++ name ++ "'"
  | buildingNavigation => "Building navigation tables"
  | finished indexes mapped =>
    "Generated " ++ Numeral.decimal indexes ++ " indexes, " ++ Numeral.decimal mapped ++
      " mapped variables"

end StageEvent

/-- What a run reports. -/
inductive Notice where
  /-- An entry was put into a dictionary. -/
  | inserted (index : Index) (name : String) (subIndexes : Nat)
  /-- A stage of the generation for a node reports. -/
  | staged (node : String) (event : StageEvent)
  /-- A file that is no longer needed could not be removed. -/
  | removalFailed (path : Path) (failure : FileFailure)
  /-- A previous file could not be put back. -/
  | restoreFailed (target backup : Path) (failure : FileFailure)
  /-- The copy of a previous file could not be removed. -/
  | backupRemovalFailed (backup : Path) (failure : FileFailure)
  /-- Both documents are in place. -/
  | pairWritten (source header : Path)
  /-- The dictionary of a node was written. -/
  | published (node : String) (source : Path)
  deriving DecidableEq, Repr

namespace Notice

def severity : Notice → Severity
  | inserted .. => .trace
  | staged _ event => event.severity
  | removalFailed .. => .warning
  | restoreFailed .. => .warning
  | backupRemovalFailed .. => .warning
  | pairWritten .. => .debug
  | published .. => .info

/-- The wording of a notice.  Stages put the node and their own name in front. -/
def message : Notice → String
  | inserted index name subIndexes =>
    "OD insert " ++ indexText index ++ " '" ++ name ++ "' (" ++ Numeral.decimal subIndexes ++
      " subindexes)"
  | staged node event =>
    "[node=" ++ node ++ ", stage=" ++ event.stage.text ++ "] " ++ event.message
  | removalFailed path failure => "Could not remove " ++ path.text ++ ": " ++ failure.message
  | restoreFailed target backup failure =>
    "Could not restore " ++ target.text ++ " from " ++ backup.text ++ ": " ++ failure.message
  | backupRemovalFailed backup failure =>
    "Could not remove backup " ++ backup.text ++ ": " ++ failure.message
  | pairWritten source header => "Wrote " ++ source.text ++ " and " ++ header.text
  | published node source =>
    "Object dictionary of '" ++ node ++ "' written to " ++ source.text

def line (n : Notice) : String := n.severity.text ++ " " ++ n.message

/-- The lines of the notices that matter at least as much as a severity. -/
def lines (least : Severity) (notices : List Notice) : List String :=
  (notices.filter fun n => n.severity.rank ≤ least.rank).map line

end Notice
end CanopenTables
