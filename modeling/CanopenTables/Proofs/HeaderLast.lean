import CanopenTables.Proofs.FaultyRuns
import CanopenTables.Proofs.FilesAside

/-!
# Never a new header beside an old source

Whichever operations of a run fail and wherever it ends: when the header holds the new document that
the run has put there, the source holds the new document too.

* Until the header is placed, no file of the run stands at the header or at its backup
  (`PairWriter.Unplaced`).  This is what the undoing relies on: what it brings back to the header is
  never new.
* The header is placed last.  At that time the source has been placed, and of what is left to do
  nothing touches the source (`PairWriter.always_place`).
-/

namespace CanopenTables

/-- Paths of different roles, or of targets with different names, lead to different locations. -/
theorem Path.apart_of_ne (r r' : Path.Role) {source p q p' q' : Path} (hp : p ∈ source.pair)
    (hq : q ∈ source.pair) (hp' : r.path? p = some p') (hq' : r'.path? q = some q')
    (h : r ≠ r' ∨ p.fileName? ≠ q.fileName?) : p'.Apart q' := by
  intro t x hx hx'
  obtain ⟨hrole, hname⟩ := (FileTree.Reaches.eq_iff r r' hp hq hp' hq' hx hx').mp rfl
  rcases h with h | h
  · exact h hrole
  · exact h hname

namespace PairWriter

open Progress Script

variable {source sourceStaged headerStaged : Path} {files : DocumentPair} {s s' : Progress}
  {command : FileCommand} {r : Except FileFailure Unit} {p copy : Path}

/-- No file of the run stands at the header or at its backup. -/
structure Unplaced (source : Path) (s : Progress) : Prop where
  header : s.Unwritten source.header
  backup : ∀ copy, source.header.backup? = some copy → s.Unwritten copy

theorem Unplaced.of_attempted (h : Unplaced source s) (hattempted : Attempted s command r s')
    (hheader : s.Spares source.header command)
    (hbackup : ∀ copy, source.header.backup? = some copy → s.Spares copy command) :
    Unplaced source s' :=
  ⟨hattempted.unwritten h.header hheader,
    fun copy hcopy => hattempted.unwritten (h.backup copy hcopy) (hbackup copy hcopy)⟩

theorem Unplaced.remove (h : Unplaced source s) (hattempted : Attempted s (.remove p) r s') :
    Unplaced source s' :=
  h.of_attempted hattempted trivial fun _ _ => trivial

/-- A staging file is neither the header nor its backup. -/
theorem Unplaced.put {staged : Path} {content : String} (h : Unplaced source s)
    (hp : p ∈ source.pair) (hstaged : p.staging? = some staged)
    (hattempted : Attempted s (.put staged content) r s') : Unplaced source s' := by
  refine h.of_attempted hattempted ?_ fun copy hcopy => ?_
  · exact Path.apart_of_ne .target .staging Path.header_mem_pair hp rfl hstaged (.inl (by decide))
  · exact Path.apart_of_ne .backup .staging Path.header_mem_pair hp hcopy hstaged (.inl (by decide))

variable (hne : source.fileName? ≠ source.header.fileName?)

include hne

theorem header_apart_source : source.header.Apart source :=
  Path.apart_of_ne .target .target Path.header_mem_pair Path.source_mem_pair rfl rfl (.inr hne.symm)

theorem Unplaced.setAside (h : Unplaced source s) (hp : p ∈ source.pair)
    (hcopy : p.backup? = some copy) (hattempted : Attempted s (.move p copy) r s') :
    Unplaced source s' := by
  rcases List.mem_pair.mp hp with rfl | rfl
  · refine h.of_attempted hattempted (.inl ?_) fun copy' hcopy' => .inl ?_
    · exact Path.apart_of_ne .target .backup Path.header_mem_pair hp rfl hcopy (.inl (by decide))
    · exact Path.apart_of_ne .backup .backup Path.header_mem_pair hp hcopy' hcopy (.inr hne.symm)
  · exact h.of_attempted hattempted (.inr h.header) fun _ _ => .inr h.header

theorem Unplaced.restore (h : Unplaced source s) (hp : p ∈ source.pair)
    (hcopy : p.backup? = some copy) (hattempted : Attempted s (.move copy p) r s') :
    Unplaced source s' := by
  rcases List.mem_pair.mp hp with rfl | rfl
  · refine h.of_attempted hattempted (.inl (header_apart_source hne)) fun copy' hcopy' => .inl ?_
    exact Path.apart_of_ne .backup .target Path.header_mem_pair hp hcopy' rfl (.inl (by decide))
  · exact h.of_attempted hattempted (.inr (h.backup copy hcopy)) fun _ _ =>
      .inr (h.backup copy hcopy)

theorem Unplaced.placeSource (h : Unplaced source s)
    (hattempted : Attempted s (.move sourceStaged source) r s') : Unplaced source s' := by
  refine h.of_attempted hattempted (.inl (header_apart_source hne)) fun copy hcopy => .inl ?_
  exact Path.apart_of_ne .backup .target Path.header_mem_pair Path.source_mem_pair hcopy rfl
    (.inl (by decide))

/-! ### The parts of a run -/

/-- A copy of the source or of the header. -/
def IsBackup (source : Path) (b : Backup) : Prop :=
  b.target ∈ source.pair ∧ b.target.backup? = some b.copy

variable {paths : List Path} {backups : List Backup} {ps : List Placement}

theorem always_rollBack (hbackups : ∀ b ∈ backups, IsBackup source b) (h : Unplaced source s) :
    Always (Unplaced source) (rollBack paths backups) (fun _ => Unplaced source) s := by
  refine Always.bind (discard_triesEach.always (fun _ _ _ _ _ hs => hs.remove) h) ?_
  intro _ s' hs' _
  exact restore_triesEach.always
    (fun b hb _ _ _ hs => hs.restore hne (hbackups b hb).1 (hbackups b hb).2) hs'

/-- While the previous files are moved aside the staged source stays where it is. -/
theorem always_setAside (hsource : source.staging? = some sourceStaged)
    (hps : ∀ p ∈ ps, p.target ∈ source.pair) (hbackups : ∀ b ∈ backups, IsBackup source b)
    (h : Unplaced source s) (hstaged : s.Holds sourceStaged files.source) :
    Always (Unplaced source) (setAside backups ps)
      (fun r s => ∀ backups', r = .ok backups' →
        s.Holds sourceStaged files.source ∧ ∀ b ∈ backups', IsBackup source b) s := by
  induction ps generalizing backups s with
  | nil =>
    refine always_pure h fun backups' hok => ?_
    cases hok
    exact ⟨hstaged, hbackups⟩
  | cons p rest ih =>
    obtain ⟨hp, hrest⟩ := List.forall_mem_cons.mp hps
    rw [setAside]
    split
    · refine (always_rollBack hne hbackups h).bind fun _ _ hs' _ => always_pure hs' ?_
      simp
    · rename_i copy hcopy
      have hapart : ∀ q ∈ [p.target, copy], sourceStaged.Apart q := by
        intro q hq
        rcases List.mem_pair.mp hq with rfl | rfl
        · exact Path.apart_of_ne .staging .target Path.source_mem_pair hp hsource rfl
            (.inl (by decide))
        · exact Path.apart_of_ne .staging .backup Path.source_mem_pair hp hsource hcopy
            (.inl (by decide))
      refine Always.bind (Q := fun _ s' => s'.Holds sourceStaged files.source)
        (always_run h fun r s' hattempted => ?_) ?_
      · exact ⟨h.setAside hne hp hcopy hattempted, hattempted.holds hstaged hapart⟩
      · intro r s' hs' hstaged'
        split
        · refine ih hrest ?_ hs' hstaged'
          simp only [List.forall_mem_append, List.forall_mem_singleton]
          exact ⟨hbackups, hp, hcopy⟩
        · exact ih hrest hbackups hs' hstaged'
        · refine (always_rollBack hne hbackups hs').bind fun _ _ hs'' _ => always_pure hs'' ?_
          simp

omit hne

theorem always_refuseDirectories {P J : Progress → Prop} (hP : P s) (hJ : J s) :
    Always P (refuseDirectories ps) (fun _ => J) s := by
  induction ps generalizing s with
  | nil => exact always_pure hP hJ
  | cons p rest ih =>
    rw [refuseDirectories]
    refine Always.bind (Q := fun _ => J) (always_isDirectory hP fun _ => hJ) ?_
    intro b s' hP' hJ'
    split
    · exact always_pure hP' hJ'
    · exact ih hP' hJ'

/-- The new header is not there without the new source. -/
def Consistent (source : Path) (files : DocumentPair) (s : Progress) : Prop :=
  s.Holds source.header files.header → s.Holds source files.source

theorem Unplaced.consistent (h : Unplaced source s) : Consistent source files s := by
  rintro ⟨x, hx, -, hwritten⟩
  exact absurd hwritten (h.header x hx)

theorem consistent_of_holds (h : s.Holds source files.source) : Consistent source files s :=
  fun _ => h

/-- How a part of a run ends that places the files. -/
def Ended (source : Path) (files : DocumentPair) : Except FileFailure Unit → Progress → Prop
  | .ok (), s => s.Holds source files.source
  | .error _, s => Unplaced source s

include hne

theorem always_undo (e : FileFailure) (hbackups : ∀ b ∈ backups, IsBackup source b)
    (h : Unplaced source s) :
    Always (Consistent source files)
      (rollBack paths backups >>= fun _ => pure (.error e)) (Ended source files) s := by
  refine Always.mono (P := Unplaced source) (Q := fun r _ => r = .error e) ?_
    (fun _ hs => hs.consistent) ?_
  · exact (always_rollBack hne hbackups h).bind fun _ _ hs' _ => always_pure hs' rfl
  · rintro r s' hs' rfl
    exact hs'

/-- The source is placed first, and the header only after it. -/
theorem always_place (hheader : source.header.staging? = some headerStaged)
    (hbackups : ∀ b ∈ backups, IsBackup source b) (h : Unplaced source s)
    (hstaged : s.Holds sourceStaged files.source) :
    Always (Consistent source files)
      (place backups [] [⟨sourceStaged, source⟩, ⟨headerStaged, source.header⟩])
      (Ended source files) s := by
  rw [place]
  refine Always.bind
    (Q := fun r s' => Unplaced source s' ∧ (r = .ok () → s'.Holds source files.source))
    (always_run h.consistent fun r s' hattempted => ?_) ?_
  · have hs' := h.placeSource hne hattempted
    refine ⟨hs'.consistent, hs', ?_⟩
    rintro rfl
    cases hattempted with
    | performed hperform => exact hstaged.move hperform
  · rintro (e | _) s' - ⟨hs', hplaced⟩
    · exact always_undo hne e hbackups hs'
    · dsimp only
      rw [place]
      refine Always.bind (Q := Ended source files)
        (always_run hs'.consistent fun r s'' hattempted => ?_) ?_
      · -- Placing the header leads neither away from the source nor onto it.
        have hapart : ∀ q ∈ [headerStaged, source.header], source.Apart q := by
          intro q hq
          rcases List.mem_pair.mp hq with rfl | rfl
          · exact Path.apart_of_ne .target .staging Path.source_mem_pair Path.header_mem_pair rfl
              hheader (.inl (by decide))
          · exact Path.apart_of_ne .target .target Path.source_mem_pair Path.header_mem_pair rfl
              rfl (.inr hne)
        have hholds := hattempted.holds (hplaced rfl) hapart
        refine ⟨consistent_of_holds hholds, ?_⟩
        cases hattempted with
        | performed hperform => exact hholds
        | failed e => exact hs'
      · rintro (e | _) s'' hs'' hended
        · exact always_undo hne e hbackups hended
        · exact always_pure hs'' hended

omit hne

theorem always_dropBackups (hbackups : ∀ b ∈ backups, IsBackup source b)
    (h : s.Holds source files.source) :
    Always (fun s => s.Holds source files.source) (dropBackups backups)
      (fun _ s => s.Holds source files.source) s := by
  refine dropBackups_triesEach.always (fun b hb s r s' hs hattempted => ?_) h
  refine hattempted.holds hs fun q hq => ?_
  obtain rfl := List.mem_singleton.mp hq
  exact Path.apart_of_ne .target .backup Path.source_mem_pair (hbackups b hb).1 rfl
    (hbackups b hb).2 (.inl (by decide))

include hne

theorem always_commit (hsource : source.staging? = some sourceStaged)
    (hheader : source.header.staging? = some headerStaged) (h : Unplaced source s)
    (hstaged : s.Holds sourceStaged files.source) :
    Always (Consistent source files)
      (commit [⟨sourceStaged, source⟩, ⟨headerStaged, source.header⟩]) (Ended source files) s := by
  rw [commit]
  refine Always.bind
    (Q := fun _ s' => Unplaced source s' ∧ s'.Holds sourceStaged files.source)
    (always_refuseDirectories h.consistent ⟨h, hstaged⟩) ?_
  rintro (e | _) s' - ⟨hs', hstaged'⟩
  · exact always_pure hs'.consistent hs'
  · have hps : ∀ p ∈ [⟨sourceStaged, source⟩, (⟨headerStaged, source.header⟩ : Placement)],
        p.target ∈ source.pair := by
      intro p hp
      rcases List.mem_pair.mp hp with rfl | rfl
      · exact Path.source_mem_pair
      · exact Path.header_mem_pair
    have hnone : ∀ b ∈ ([] : List Backup), IsBackup source b := by simp
    refine Always.bind ((always_setAside hne hsource hps hnone hs' hstaged').mono
      (fun _ hs => hs.consistent) fun r s'' hs'' hr => And.intro hs'' hr) ?_
    rintro (e | backups) s'' - ⟨hs'', hr⟩
    · exact always_pure hs''.consistent hs''
    · obtain ⟨hstaged'', hbackups⟩ := hr backups rfl
      refine Always.bind (always_place hne hheader hbackups hs'' hstaged'') ?_
      rintro (e | _) u hu hended
      · exact always_pure hu hended
      · refine Always.bind ((always_dropBackups hbackups hended).mono
          (fun _ => consistent_of_holds) fun _ _ hs _ => hs) ?_
        exact fun _ _ hs hholds => always_pure hs hholds

theorem always_stage (hsource : source.staging? = some sourceStaged)
    (hheader : source.header.staging? = some headerStaged) (h : Unplaced source s) :
    Always (Unplaced source) (stage sourceStaged headerStaged files)
      (fun r s => r = .ok () → s.Holds sourceStaged files.source) s := by
  rw [stage]
  refine Always.bind (Q := fun r s => r = .ok () → s.Holds sourceStaged files.source)
    (always_run h fun r s' hattempted => ⟨h.put Path.source_mem_pair hsource hattempted, ?_⟩) ?_
  · rintro rfl
    cases hattempted with
    | performed hperform => exact holds_of_put hperform
  · rintro (e | _) s' hs' hstaged
    · exact always_pure hs' (by simp)
    · refine always_run hs' fun r s'' hattempted =>
        ⟨hs'.put Path.header_mem_pair hheader hattempted, fun _ => ?_⟩
      refine hattempted.holds (hstaged rfl) fun q hq => ?_
      obtain rfl := List.mem_singleton.mp hq
      exact Path.apart_of_ne .staging .staging Path.source_mem_pair Path.header_mem_pair
        hsource hheader (.inr hne)

theorem always_writeStaged (hsource : source.staging? = some sourceStaged)
    (hheader : source.header.staging? = some headerStaged) (h : Unplaced source s) :
    Always (Consistent source files)
      (writeStaged source source.header sourceStaged headerStaged files)
      (Ended source files) s := by
  have hdiscard (e : FileFailure) {s' : Progress} (hs' : Unplaced source s') :
      Always (Consistent source files)
        (discard [sourceStaged, headerStaged] >>= fun _ => pure (.error e))
        (Ended source files) s' := by
    refine Always.bind ((discard_triesEach.always (fun _ _ _ _ _ hs => hs.remove) hs').mono
      (fun _ hs => hs.consistent) fun _ _ hs _ => hs) ?_
    exact fun _ _ hP hs => always_pure hP hs
  rw [writeStaged]
  refine Always.bind ((always_stage hne hsource hheader h).mono (fun _ hs => hs.consistent)
    fun r s' hs' hr => And.intro hs' hr) ?_
  rintro (e | _) s' - ⟨hs', hstaged⟩
  · exact hdiscard e hs'
  · refine Always.bind (always_commit hne hsource hheader hs' (hstaged rfl)) ?_
    rintro (e | _) s'' hs'' hended
    · exact hdiscard e hended
    · exact (always_tell hs'' hended).bind fun _ _ hu hholds => always_pure hu hholds

omit hne

theorem unplaced_start (source : Path) (t : FileTree) : Unplaced source (start t) :=
  ⟨fun _ _ => id, fun _ _ _ _ => id⟩

theorem always_write (hextension : source.extension? ≠ some "h") (t : FileTree) :
    Always (Consistent source files) (write source source.header files) (Ended source files)
      (start t) := by
  have hstart := unplaced_start source t
  unfold write
  split
  · exact always_pure hstart.consistent hstart
  · exact always_pure hstart.consistent hstart
  · rename_i sourceStaged headerStaged hsource hheader
    obtain ⟨⟨parents, name⟩, hsplit, -⟩ := Option.map_eq_some_iff.mp hheader
    exact always_writeStaged (Path.fileName?_header_ne hextension hsplit) hsource hheader hstart

/-- Never a new header beside an old source: in every state that a run passes through, whichever of
its operations fail and wherever it ends, the source holds the document that the run has put there
if the header does. -/
theorem holds_source_of_holds_header (t : FileTree) (source : Path) (files : DocumentPair)
    (hextension : source.extension? ≠ some "h") {s : Progress}
    {rest : Script (Except FileFailure Unit)}
    (hrun : Relation.ReflTransGen Step (start t, write source source.header files) (s, rest))
    (hheader : s.Holds source.header files.header) : s.Holds source files.source :=
  holds_of_always (always_write hextension t) hrun hheader

/-- A source in the top directory, and documents for it and its header. -/
def nodeSource : Path := ⟨["Node.c"]⟩

def nodeDocuments : DocumentPair := ⟨"new source", "new header"⟩

/-- A run into an empty directory may stop when the header has just been placed. -/
theorem exists_steps_node : ∃ s rest,
    Relation.ReflTransGen Step (start .empty, write nodeSource nodeSource.header nodeDocuments)
      (s, rest) ∧ s.Holds nodeSource.header nodeDocuments.header := by
  let staged : Path := ⟨[".Node.c.tmp"]⟩
  let staged' : Path := ⟨[".Node.h.tmp"]⟩
  let t₁ := FileTree.empty.set [".Node.c.tmp"] (.file "new source")
  let t₂ := t₁.set [".Node.h.tmp"] (.file "new header")
  let t₃ := (t₂.erase [".Node.c.tmp"]).set ["Node.c"] (.file "new source")
  let t₄ := (t₃.erase [".Node.h.tmp"]).set ["Node.h"] (.file "new header")
  have h₁ : FileTree.empty.perform (.put staged "new source") = .ok t₁ := by decide
  have h₂ : t₁.perform (.put staged' "new header") = .ok t₂ := by decide
  have h₃ : t₂.perform (.move staged nodeSource) = .ok t₃ := by decide
  have h₄ : t₃.perform (.move staged' nodeSource.header) = .ok t₄ := by decide
  -- Both are written, no target is a directory and none exists, both are placed.
  refine ⟨_, _, .head (.attempt (.performed h₁)) <| .head (.attempt (.performed h₂)) <|
    .head (.probe .told) <| .head (.probe .told) <|
    .head (.attempt (.failed (.system .notFound))) <|
    .head (.attempt (.failed (.system .notFound))) <|
    .head (.attempt (.performed h₃)) <| .head (.attempt (.performed h₄)) .refl,
    Holds.move ?_ h₄⟩
  refine (Attempted.performed h₃).holds (holds_of_put h₂) fun q hq => ?_
  have hne : nodeSource.header.fileName? ≠ nodeSource.fileName? := by decide
  rcases List.mem_pair.mp hq with rfl | rfl
  · exact Path.apart_of_ne .staging .staging Path.header_mem_pair Path.source_mem_pair
      (by decide) (by decide) (.inr hne)
  · exact Path.apart_of_ne .staging .target Path.header_mem_pair Path.source_mem_pair
      (by decide) rfl (.inr hne)

theorem holds_source_of_holds_header_node :
    nodeSource.extension? ≠ some "h" ∧ ∃ s rest,
      Relation.ReflTransGen Step (start .empty, write nodeSource nodeSource.header nodeDocuments)
        (s, rest) ∧
      s.Holds nodeSource.header nodeDocuments.header ∧
      s.Holds nodeSource nodeDocuments.source := by
  obtain ⟨s, rest, hrun, hheader⟩ := exists_steps_node
  have hextension : nodeSource.extension? ≠ some "h" := by decide
  exact ⟨hextension, s, rest, hrun, hheader,
    holds_source_of_holds_header .empty nodeSource nodeDocuments hextension hrun hheader⟩

end PairWriter
end CanopenTables
