import CanopenTables.Document
import CanopenTables.Files.Script

/-!
# Writing the two documents as a pair

Both documents are first written to staging files beside their targets.  Then the previous targets
are moved aside, the staging files take their places, and the previous files are removed.  When a
step fails, what was done is undone, so a failed run leaves the previous pair in place and never a
new header beside an old source.
-/

namespace CanopenTables

/-- A staging file and the target whose place it is to take. -/
structure Placement where
  staged : Path
  target : Path
  deriving DecidableEq, Repr

/-- A copy of a previous file and the place it came from. -/
structure Backup where
  copy : Path
  target : Path
  deriving DecidableEq, Repr

namespace PairWriter

/-- Removes files that are no longer needed.  A file that is not there needs no removal; any other
failure is only reported. -/
def discard : List Path → Script Unit
  | [] => pure ()
  | path :: rest => do
    match ← Script.run (.remove path) with
    | .ok () => pure ()
    | .error (.system .notFound) => pure ()
    | .error e => Script.tell (.removalFailed path e)
    discard rest

/-- Puts the previous files back to where they came from. -/
def restore : List Backup → Script Unit
  | [] => pure ()
  | backup :: rest => do
    match ← Script.run (.move backup.copy backup.target) with
    | .ok () => pure ()
    | .error e => Script.tell (.restoreFailed backup.target backup.copy e)
    restore rest

/-- Undoes a commit that failed: first the new files go, then the previous ones come back. -/
def rollBack (placed : List Path) (backups : List Backup) : Script Unit := do
  discard placed
  restore backups

/-- Refuses targets that are directories. -/
def refuseDirectories : List Placement → Script (Except FileFailure Unit)
  | [] => pure (.ok ())
  | p :: rest => do
    if ← Script.isDirectory p.target then pure (.error (.directoryTarget p.target))
    else refuseDirectories rest

/-- Moves the previous targets aside.  A target that does not exist yet needs no backup. -/
def setAside (backups : List Backup) : List Placement → Script (Except FileFailure (List Backup))
  | [] => pure (.ok backups)
  | p :: rest =>
    match p.target.backup? with
    | none => do
      rollBack [] backups
      pure (.error (.noFileName p.target))
    | some copy => do
      match ← Script.run (.move p.target copy) with
      | .ok () => setAside (backups ++ [⟨copy, p.target⟩]) rest
      | .error (.system .notFound) => setAside backups rest
      | .error e =>
        rollBack [] backups
        pure (.error e)

/-- Lets the staging files take the places of their targets. -/
def place (backups : List Backup) (placed : List Path) :
    List Placement → Script (Except FileFailure Unit)
  | [] => pure (.ok ())
  | p :: rest => do
    match ← Script.run (.move p.staged p.target) with
    | .ok () => place backups (placed ++ [p.target]) rest
    | .error e =>
      rollBack placed backups
      pure (.error e)

/-- Removes the copies of the previous files; a failure is only reported. -/
def dropBackups : List Backup → Script Unit
  | [] => pure ()
  | backup :: rest => do
    match ← Script.run (.remove backup.copy) with
    | .ok () => pure ()
    | .error e => Script.tell (.backupRemovalFailed backup.copy e)
    dropBackups rest

/-- Lets all staging files take the places of their targets, or changes nothing. -/
def commit (placements : List Placement) : Script (Except FileFailure Unit) := do
  match ← refuseDirectories placements with
  | .error e => pure (.error e)
  | .ok () =>
    match ← setAside [] placements with
    | .error e => pure (.error e)
    | .ok backups =>
      match ← place backups [] placements with
      | .error e => pure (.error e)
      | .ok () =>
        dropBackups backups
        pure (.ok ())

/-- Writes both staging files; the second is not tried when the first fails. -/
def stage (sourceStaged headerStaged : Path) (files : DocumentPair) :
    Script (Except FileFailure Unit) := do
  match ← Script.run (.put sourceStaged files.source) with
  | .error e => pure (.error e)
  | .ok () => Script.run (.put headerStaged files.header)

/-- Writes and commits both files through staging files whose paths are known. -/
def writeStaged (source header sourceStaged headerStaged : Path) (files : DocumentPair) :
    Script (Except FileFailure Unit) := do
  match ← stage sourceStaged headerStaged files with
  | .error e =>
    discard [sourceStaged, headerStaged]
    pure (.error e)
  | .ok () =>
    match ← commit [⟨sourceStaged, source⟩, ⟨headerStaged, header⟩] with
    | .error e =>
      discard [sourceStaged, headerStaged]
      pure (.error e)
    | .ok () =>
      Script.tell (.pairWritten source header)
      pure (.ok ())

/-- Writes the source and the header to their paths, which both have to name a file. -/
def write (source header : Path) (files : DocumentPair) : Script (Except FileFailure Unit) :=
  match source.staging?, header.staging? with
  | none, _ => pure (.error (.noFileName source))
  | some _, none => pure (.error (.noFileName header))
  | some sourceStaged, some headerStaged =>
    writeStaged source header sourceStaged headerStaged files

end PairWriter
end CanopenTables
