import CanopenTables.Proofs.FilesAside

/-!
# The paths that a run names

A pair of files is written through six paths: for the source and for its header the path itself, the
staging file and the backup (`Path.workingPaths`).  Whatever the answers to its operations are, a
run names no other path.

* `Script.Names`: every operation and every question of a script is about certain paths.  Like the
  script itself it is put together from parts (`Script.Names.bind`).
* `PairWriter.names_setAside`: the backups that a run takes note of have such paths as well, so
  undoing it names no further ones.
* `PairWriter.names_write`: the whole run.
-/

namespace CanopenTables

namespace Path

variable {p q source : Path}

/-- What a path can be used for. -/
def Role.all : List Role := [target, staging, backup]

theorem Role.mem_all (r : Role) : r ∈ all := by cases r <;> decide

/-- The paths that are used while a source and its header are written: for both the path itself, the
staging file and the backup. -/
def workingPaths (source : Path) : List Path :=
  source.pair.flatMap fun target => Role.all.filterMap (·.path? target)

theorem mem_workingPaths_iff :
    q ∈ source.workingPaths ↔ ∃ target ∈ source.pair, ∃ r : Role, r.path? target = some q := by
  simp [workingPaths, Role.mem_all]

theorem mem_workingPaths_of_mem_pair (hp : p ∈ source.pair) : p ∈ source.workingPaths :=
  mem_workingPaths_iff.mpr ⟨p, hp, .target, rfl⟩

theorem mem_workingPaths_of_staging? (hp : p ∈ source.pair) (hq : p.staging? = some q) :
    q ∈ source.workingPaths :=
  mem_workingPaths_iff.mpr ⟨p, hp, .staging, hq⟩

theorem mem_workingPaths_of_backup? (hp : p ∈ source.pair) (hq : p.backup? = some q) :
    q ∈ source.workingPaths :=
  mem_workingPaths_iff.mpr ⟨p, hp, .backup, hq⟩

end Path

namespace Script

variable {α β : Type} {P : Path → Prop} {Q : α → Prop} {x : Script α}

/-- Whatever is answered, a script names certain paths only, and something holds of its result. -/
def Names (P : Path → Prop) : Script α → (α → Prop) → Prop
  | done a, Q => Q a
  | attempt command next, Q => (∀ p ∈ command.paths, P p) ∧ ∀ r, Names P (next r) Q
  | probe p next, Q => P p ∧ ∀ b, Names P (next b) Q
  | report _ next, Q => Names P next Q

theorem names_pure {a : α} (h : Q a) : Names P (pure a) Q := h

theorem names_run {command : FileCommand} (h : ∀ p ∈ command.paths, P p) :
    Names P (run command) fun _ => True := ⟨h, fun _ => trivial⟩

theorem names_put {p : Path} (h : P p) (content : String) :
    Names P (run (.put p content)) fun _ => True :=
  names_run (List.forall_mem_singleton.mpr h)

theorem names_move {p q : Path} (hp : P p) (hq : P q) :
    Names P (run (.move p q)) fun _ => True := by
  refine names_run fun r hr => ?_
  rcases List.mem_pair.mp hr with rfl | rfl
  · exact hp
  · exact hq

theorem names_isDirectory {p : Path} (h : P p) : Names P (isDirectory p) fun _ => True :=
  ⟨h, fun _ => trivial⟩

theorem names_tell (notice : Notice) : Names P (tell notice) fun _ => True := trivial

theorem Names.bind {f : α → Script β} {R : β → Prop} (h : Names P x Q)
    (hf : ∀ a, Q a → Names P (f a) R) : Names P (x >>= f) R := by
  show Names P (x.andThen f) R
  induction x with
  | done a => exact hf a h
  | attempt command next ih => exact ⟨h.1, fun r => ih r (h.2 r)⟩
  | probe p next ih => exact ⟨h.1, fun b => ih b (h.2 b)⟩
  | report notice next ih => exact ih h

theorem TriesEach.names {f : List β → Script Unit} {command : β → FileCommand}
    (hf : TriesEach f command) {l : List β} (h : ∀ b ∈ l, ∀ p ∈ (command b).paths, P p) :
    Names P (f l) fun _ => True := by
  induction l with
  | nil =>
    rw [hf.nil]
    exact names_pure trivial
  | cons b rest ih =>
    obtain ⟨hb, hrest⟩ := List.forall_mem_cons.mp h
    obtain ⟨next, heq, hnext⟩ := hf.cons b rest
    rw [heq]
    refine (names_run hb).bind fun r _ => ?_
    rcases hnext r with hr | ⟨notice, hr⟩
    · rw [hr]
      exact ih hrest
    · rw [hr]
      exact (names_tell notice).bind fun _ _ => ih hrest

end Script

/-- Both paths of a backup are among the six of a pair. -/
structure Backup.Inside (b : Backup) (source : Path) : Prop where
  copy : b.copy ∈ source.workingPaths
  target : b.target ∈ source.workingPaths

/-- A target of the pair and its staging file. -/
structure Placement.Inside (p : Placement) (source : Path) : Prop where
  staged : p.staged ∈ source.workingPaths
  target : p.target ∈ source.pair

namespace PairWriter

open Script

variable {source sourceStaged headerStaged : Path} {files : DocumentPair} {paths : List Path}
  {backups : List Backup} {ps : List Placement}

theorem names_discard (h : ∀ p ∈ paths, p ∈ source.workingPaths) :
    Names (· ∈ source.workingPaths) (discard paths) fun _ => True :=
  discard_triesEach.names fun p hp => List.forall_mem_singleton.mpr (h p hp)

theorem names_rollBack (hpaths : ∀ p ∈ paths, p ∈ source.workingPaths)
    (hbackups : ∀ b ∈ backups, b.Inside source) :
    Names (· ∈ source.workingPaths) (rollBack paths backups) fun _ => True := by
  refine (names_discard hpaths).bind fun _ _ => restore_triesEach.names fun b hb => ?_
  simpa [FileCommand.paths] using And.intro (hbackups b hb).copy (hbackups b hb).target

theorem names_dropBackups (hbackups : ∀ b ∈ backups, b.Inside source) :
    Names (· ∈ source.workingPaths) (dropBackups backups) fun _ => True :=
  dropBackups_triesEach.names fun b hb => List.forall_mem_singleton.mpr (hbackups b hb).copy

theorem names_refuseDirectories (hps : ∀ p ∈ ps, p.Inside source) :
    Names (· ∈ source.workingPaths) (refuseDirectories ps) fun _ => True := by
  induction ps with
  | nil => exact names_pure trivial
  | cons p rest ih =>
    obtain ⟨hp, hrest⟩ := List.forall_mem_cons.mp hps
    rw [refuseDirectories]
    refine (names_isDirectory (Path.mem_workingPaths_of_mem_pair hp.target)).bind fun b _ => ?_
    split
    · exact names_pure trivial
    · exact ih hrest

theorem names_setAside (hps : ∀ p ∈ ps, p.Inside source)
    (hbackups : ∀ b ∈ backups, b.Inside source) :
    Names (· ∈ source.workingPaths) (setAside backups ps)
      fun r => ∀ backups', r = .ok backups' → ∀ b ∈ backups', b.Inside source := by
  have hnone : ∀ p ∈ ([] : List Path), p ∈ source.workingPaths := by simp
  induction ps generalizing backups with
  | nil =>
    refine names_pure fun backups' hok => ?_
    cases hok
    exact hbackups
  | cons p rest ih =>
    obtain ⟨hp, hrest⟩ := List.forall_mem_cons.mp hps
    have htarget := Path.mem_workingPaths_of_mem_pair hp.target
    rw [setAside]
    split
    · exact (names_rollBack hnone hbackups).bind fun _ _ => names_pure (by simp)
    · rename_i copy hcopy
      have hmem := Path.mem_workingPaths_of_backup? hp.target hcopy
      refine (names_move htarget hmem).bind fun r _ => ?_
      split
      · refine ih hrest ?_
        simp only [List.forall_mem_append, List.forall_mem_singleton]
        exact ⟨hbackups, hmem, htarget⟩
      · exact ih hrest hbackups
      · exact (names_rollBack hnone hbackups).bind fun _ _ => names_pure (by simp)

theorem names_place (hps : ∀ p ∈ ps, p.Inside source)
    (hpaths : ∀ p ∈ paths, p ∈ source.workingPaths)
    (hbackups : ∀ b ∈ backups, b.Inside source) :
    Names (· ∈ source.workingPaths) (place backups paths ps) fun _ => True := by
  induction ps generalizing paths with
  | nil => exact names_pure trivial
  | cons p rest ih =>
    obtain ⟨hp, hrest⟩ := List.forall_mem_cons.mp hps
    have htarget := Path.mem_workingPaths_of_mem_pair hp.target
    rw [place]
    refine (names_move hp.staged htarget).bind fun r _ => ?_
    split
    · refine ih hrest ?_
      simp only [List.forall_mem_append, List.forall_mem_singleton]
      exact ⟨hpaths, htarget⟩
    · exact (names_rollBack hpaths hbackups).bind fun _ _ => names_pure trivial

theorem names_commit (hps : ∀ p ∈ ps, p.Inside source) :
    Names (· ∈ source.workingPaths) (commit ps) fun _ => True := by
  have hnone : ∀ b ∈ ([] : List Backup), b.Inside source := by simp
  rw [commit]
  refine (names_refuseDirectories hps).bind ?_
  rintro (e | _) -
  · exact names_pure trivial
  · refine (names_setAside hps hnone).bind ?_
    rintro (e | backups) hr
    · exact names_pure trivial
    · have hbackups := hr backups rfl
      refine (names_place hps (by simp) hbackups).bind ?_
      rintro (e | _) -
      · exact names_pure trivial
      · exact (names_dropBackups hbackups).bind fun _ _ => names_pure trivial

theorem names_stage (hsource : sourceStaged ∈ source.workingPaths)
    (hheader : headerStaged ∈ source.workingPaths) :
    Names (· ∈ source.workingPaths) (stage sourceStaged headerStaged files) fun _ => True := by
  rw [stage]
  refine (names_put hsource files.source).bind ?_
  rintro (e | _) -
  · exact names_pure trivial
  · exact names_put hheader files.header

/-- A run that writes a source and its header names their six paths only. -/
theorem names_write (source : Path) (files : DocumentPair) :
    Names (· ∈ source.workingPaths) (write source source.header files) fun _ => True := by
  unfold write
  split
  · exact names_pure trivial
  · exact names_pure trivial
  · rename_i sourceStaged headerStaged hsource hheader
    have hsourceMem := Path.mem_workingPaths_of_staging? Path.source_mem_pair hsource
    have hheaderMem := Path.mem_workingPaths_of_staging? Path.header_mem_pair hheader
    have hps : ∀ p ∈ [⟨sourceStaged, source⟩, (⟨headerStaged, source.header⟩ : Placement)],
        p.Inside source := by
      intro p hp
      rcases List.mem_pair.mp hp with rfl | rfl
      · exact ⟨hsourceMem, Path.source_mem_pair⟩
      · exact ⟨hheaderMem, Path.header_mem_pair⟩
    have hdiscard : ∀ p ∈ [sourceStaged, headerStaged], p ∈ source.workingPaths := by
      simpa using And.intro hsourceMem hheaderMem
    rw [writeStaged]
    refine (names_stage hsourceMem hheaderMem).bind ?_
    rintro (e | _) -
    · exact (names_discard hdiscard).bind fun _ _ => names_pure trivial
    · refine (names_commit hps).bind ?_
      rintro (e | _) -
      · exact (names_discard hdiscard).bind fun _ _ => names_pure trivial
      · exact (names_tell _).bind fun _ _ => names_pure trivial

end PairWriter
end CanopenTables
